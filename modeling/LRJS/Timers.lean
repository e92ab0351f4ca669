import LRJS.Library.Journals
import LRJS.Library.Runs
import Mathlib.Algebra.Ring.Nat
import Mathlib.Data.List.Count

/-!
# Timers

`setTimeout` and its kin (`lr_timers.c`), with `lr_timers_process` as turns of
its loop.  A turn that fires a timer ends with the call of its callback, which
may set and clear timers; another turn goes on when the callback returns.
-/

namespace LRJS.Timers

inductive Callback where
  | function (f : Nat)
  | string (text : String)
  | other
  deriving DecidableEq

/-- A node of the list.  `serial` stands for its address: the number of nodes before it. -/
structure LR_TimerNode where
  serial : Nat
  id : Int
  is_interval : Bool
  callback : Callback
  delay_ms : Int
  start_time : Int
  next_fire : Int
  cleared : Bool
  deriving DecidableEq

def CLOCKS_PER_SEC : Int := 1000000

/-- A delay in the units of `clock_t`. -/
def ticks (delay_ms : Int) : Int :=
  ((delay_ms * CLOCKS_PER_SEC).bmod (2 ^ 64)).tdiv 1000

def LR_TimerNode.cancel (node : LR_TimerNode) : LR_TimerNode :=
  { node with cleared := true }

def LR_TimerNode.rescheduled (node : LR_TimerNode) (now : Int) : LR_TimerNode :=
  { node with next_fire := (now + ticks node.delay_ms).bmod (2 ^ 64) }

/-- The arguments of `setTimeout`: the callback, and the delay, which may fail to be a number. -/
structure Arguments where
  callback : Option Callback
  delay : Option (Option Int)
  deriving DecidableEq

inductive Answer where
  | id (n : Int)
  | undefined
  | typeError (message : String)
  | exception
  deriving DecidableEq

/-- The locals of `lr_timers_process`; `prev`: there is a previous node, `calling`: the callback at
the cursor is under way. -/
structure Processing where
  now : Int
  has_pending : Bool
  prev : Bool
  calling : Bool
  deriving DecidableEq

/-- The list in two parts, before the cursor of the loop and from the cursor on; outside the loop
all of it is `rest`. -/
structure LR_Runtime where
  before : List LR_TimerNode
  rest : List LR_TimerNode
  processing : Option Processing
  next_timer_id : Int
  created : Nat
  has_pending_jobs : Bool
  deriving DecidableEq

namespace LR_Runtime

variable (rt : LR_Runtime)

def timer_list : List LR_TimerNode :=
  rt.before ++ rt.rest

/-- `timer_list` becomes the new node. -/
def prepend (node : LR_TimerNode) : LR_Runtime :=
  match rt.processing with
  | none => { rt with rest := node :: rt.rest }
  | some _ => { rt with before := node :: rt.before }

def newNode (is_interval : Bool) (callback : Callback) (delay clock : Int) : LR_TimerNode where
  serial := rt.created
  id := rt.next_timer_id
  is_interval := is_interval
  callback := callback
  delay_ms := delay
  start_time := clock
  next_fire := (clock + ticks delay).bmod (2 ^ 64)
  cleared := false

/-- The end of `lr_set_timeout`: a timer is created. -/
def create (is_interval : Bool) (callback : Callback) (delay clock : Int) : LR_Runtime :=
  { rt.prepend (rt.newNode is_interval callback delay clock) with
    next_timer_id := (rt.next_timer_id + 1).bmod (2 ^ 32)
    created := rt.created + 1
    has_pending_jobs := true }

end LR_Runtime

/-- The checks of `lr_set_timeout`: the callback and the delay, or what it answers instead. -/
def Arguments.check (arguments : Arguments) : Except Answer (Callback × Int) :=
  match arguments.callback with
  | none => .error (.typeError "setTimeout requires at least 1 argument")
  | some .other =>
    .error (.typeError "setTimeout: first argument must be a function or string")
  | some callback =>
    match arguments.delay with
    | none => .ok (callback, 0)
    | some none => .error .exception
    | some (some delay) => .ok (callback, if delay < 0 then 0 else delay)

namespace LR_Runtime

variable (rt : LR_Runtime)

def lr_set_timeout (arguments : Arguments) (is_interval : Bool) (clock : Int) :
    Answer × LR_Runtime :=
  match arguments.check with
  | .error answer => (answer, rt)
  | .ok (callback, delay) => (.id rt.next_timer_id, rt.create is_interval callback delay clock)

def markCleared (timer_id : Int) : List LR_TimerNode → List LR_TimerNode
  | [] => []
  | node :: rest =>
    if node.id = timer_id then node.cancel :: rest else node :: markCleared timer_id rest

/-- `lr_clear_timer` with a number as its argument. -/
def lr_clear_timer (timer_id : Int) : LR_Runtime :=
  if ∃ node ∈ rt.before, node.id = timer_id then
    { rt with before := markCleared timer_id rt.before }
  else
    { rt with rest := markCleared timer_id rt.rest }

end LR_Runtime

inductive Action where
  | remove
  /-- `JS_Call` of the callback begins. -/
  | fire (node : LR_TimerNode)
  | skip
  | leave (has_pending : Bool)
  deriving DecidableEq

namespace LR_Runtime

variable (rt : LR_Runtime)

/-- `prev` is the node at the cursor, and the cursor goes on. -/
def advance (processing : Processing) (has_pending : Bool) (node : LR_TimerNode)
    (rest : List LR_TimerNode) : LR_Runtime :=
  { rt with
    before := rt.before ++ [node]
    rest := rest
    processing :=
      some { processing with has_pending := has_pending, prev := true, calling := false } }

/-- A turn of the loop of `lr_timers_process`, up to the call of a callback, or its end. -/
def turn (processing : Processing) : LR_Runtime × Action :=
  match rt.rest with
  | [] =>
    ({ rt with
      before := []
      rest := rt.before
      processing := none
      has_pending_jobs := processing.has_pending }, .leave processing.has_pending)
  | node :: rest =>
    if node.cleared = true then
      if processing.prev = true then ({ rt with rest := rest }, .remove)
      else ({ rt with before := [], rest := rest }, .remove)
    else if node.next_fire ≤ processing.now then
      ({ rt with processing := some { processing with calling := true } }, .fire node)
    else
      (rt.advance processing true node rest, .skip)

def resume (processing : Processing) : LR_Runtime :=
  match rt.rest with
  | [] => rt
  | node :: rest =>
    if node.is_interval = true then
      rt.advance processing true (node.rescheduled processing.now) rest
    else
      rt.advance processing false node.cancel rest

end LR_Runtime

inductive Note where
  /-- A timer is set, for the time `due`; an interval is due again `period` later. -/
  | created (id due period : Int) (is_interval : Bool)
  | cleared (id : Int)
  /-- `lr_timers_process` reads the clock. -/
  | process (now : Int)
  /-- The callback of a timer is called; `serial` is the number of timers set before it. -/
  | fired (serial : Nat)
  /-- `lr_timers_process` returns, and has set `has_pending_jobs`. -/
  | processed (has_pending : Bool)
  deriving DecidableEq

structure Timer where
  id : Int
  due : Int
  period : Int
  is_interval : Bool
  cleared : Bool
  fired : Bool
  fresh : Bool
  deriving DecidableEq

def Timer.Live (timer : Timer) : Prop :=
  timer.cleared = false ∧ (timer.is_interval = true ∨ timer.fired = false)

instance (timer : Timer) : Decidable timer.Live :=
  inferInstanceAs (Decidable (_ ∧ _))

/-- `last` is the due time and the number of the timer that has fired last in this call. -/
structure Account where
  timers : List Timer
  now : Int
  last : Option (Int × Nat)
  deriving DecidableEq

def Timer.clear (id : Int) (timer : Timer) : Timer :=
  { timer with cleared := timer.cleared || timer.id == id }

def Timer.fire (now : Int) (timer : Timer) : Timer :=
  { timer with
    due := if timer.is_interval = true then now + timer.period else timer.due
    fired := true
    fresh := true }

def Account.record (account : Account) : Note → Account
  | .created id due period is_interval =>
    { account with
      timers := account.timers ++ [⟨id, due, period, is_interval, false, false, true⟩] }
  | .cleared id => { account with timers := account.timers.map (Timer.clear id) }
  | .process now => ⟨account.timers.map fun timer => { timer with fresh := false }, now, none⟩
  | .fired serial =>
    { account with
      timers := account.timers.modify serial (Timer.fire account.now)
      last := account.timers[serial]?.map fun timer => (timer.due, serial) }
  | .processed _ => account

/-- A timer comes behind the one that has fired last: it is due later, or at the same time and was
set later. -/
def Account.Behind (account : Account) (due : Int) (serial : Nat) : Prop :=
  ∀ last ∈ account.last, last.1 < due ∨ last.1 = due ∧ last.2 < serial

/-- A timer fires only while it is live and due, and in one call in the order of due times and then
of creation.  When `lr_timers_process` returns, every live timer that was due has fired, and
`has_pending_jobs` says if a timer can still fire. -/
def Account.Allows (account : Account) : Note → Prop
  | .fired serial => ∃ timer, account.timers[serial]? = some timer ∧ timer.Live ∧
      timer.due ≤ account.now ∧ account.Behind timer.due serial
  | .processed has_pending =>
    (∀ timer ∈ account.timers, timer.Live → account.now < timer.due ∨ timer.fresh = true) ∧
      (has_pending = true ↔ ∃ timer ∈ account.timers, timer.Live)
  | .created _ _ _ _ | .cleared _ | .process _ => True

def law : Journals.Law Note Account where
  opening := ⟨[], 0, none⟩
  record := Account.record
  Allows := Account.Allows

inductive Event where
  | set (arguments : Arguments) (is_interval : Bool) (clock : Int)
  | clear (timer_id : Int)
  | process (now : Int)
  | turn
  | resume
  deriving DecidableEq

structure State where
  rt : LR_Runtime
  clock : Int
  journal : List Note
  deriving DecidableEq

def Action.notes : Action → List Note
  | .remove | .skip => []
  | .fire node => [.fired node.serial]
  | .leave has_pending => [.processed has_pending]

namespace State

variable (s : State)

/-- The program runs: outside of `lr_timers_process`, or in a callback. -/
def Runs : Prop :=
  ∀ processing ∈ s.rt.processing, processing.calling = true

instance : Decidable s.Runs :=
  inferInstanceAs (Decidable (∀ processing ∈ s.rt.processing, _))

/-- The note of a call of `setTimeout`, in exact arithmetic. -/
def setNotes (arguments : Arguments) (is_interval : Bool) (clock : Int) : List Note :=
  match arguments.check with
  | .error _ => []
  | .ok (_, delay) =>
    let period := delay * (CLOCKS_PER_SEC / 1000)
    [.created s.rt.next_timer_id (clock + period) period is_interval]

/-- A step of the program or of `lr_timers_process`; the clock does not go back. -/
def step : Event → Option State
  | .set arguments is_interval clock =>
    if s.Runs ∧ s.clock ≤ clock then
      some ⟨(s.rt.lr_set_timeout arguments is_interval clock).2, clock,
        s.journal ++ s.setNotes arguments is_interval clock⟩
    else none
  | .clear timer_id =>
    if s.Runs then
      some ⟨s.rt.lr_clear_timer timer_id, s.clock, s.journal ++ [.cleared timer_id]⟩
    else none
  | .process now =>
    if s.rt.processing = none ∧ s.clock ≤ now then
      some ⟨{ s.rt with processing := some ⟨now, false, false, false⟩ }, now,
        s.journal ++ [.process now]⟩
    else none
  | .turn =>
    match s.rt.processing with
    | some processing =>
      if processing.calling = false then
        let (rt, action) := s.rt.turn processing
        some ⟨rt, s.clock, s.journal ++ action.notes⟩
      else none
    | none => none
  | .resume =>
    match s.rt.processing with
    | some processing =>
      if processing.calling = true then some ⟨s.rt.resume processing, s.clock, s.journal⟩
      else none
    | none => none

def start : State :=
  ⟨⟨[], [], none, 1, 0, false⟩, 0, []⟩

end State

/-- In the range of `int64_t`. -/
def Fits (time : Int) : Prop :=
  time.bmod (2 ^ 64) = time

instance (time : Int) : Decidable (Fits time) :=
  inferInstanceAs (Decidable (_ = _))

def DelayFits (delay clock : Int) : Prop :=
  Fits (delay * CLOCKS_PER_SEC) ∧ Fits (clock + delay * (CLOCKS_PER_SEC / 1000))

instance (delay clock : Int) : Decidable (DelayFits delay clock) :=
  inferInstanceAs (Decidable (_ ∧ _))

/-- The timer fires in a call that has read the clock at `now`, when its turn comes. -/
def LR_TimerNode.Due (now : Int) (node : LR_TimerNode) : Prop :=
  node.cleared = false ∧ node.next_fire ≤ now

instance (now : Int) (node : LR_TimerNode) : Decidable (node.Due now) :=
  inferInstanceAs (Decidable (_ ∧ _))

def NextLater (now : Int) : List LR_TimerNode → Prop
  | node :: rest =>
    ∀ next ∈ rest.find? fun other => other.Due now, node.next_fire < next.next_fire
  | [] => True

instance (now : Int) : (rest : List LR_TimerNode) → Decidable (NextLater now rest)
  | _ :: rest => inferInstanceAs (Decidable (∀ next ∈ rest.find? _, _))
  | [] => inferInstanceAs (Decidable True)

/-- When the callback of the first timer returns and no other behind it can fire: a timeout has no
timer before it that can; an interval can itself, or another can. -/
def LeavesRight (before : List LR_TimerNode) : List LR_TimerNode → Prop
  | node :: rest =>
    (∀ other ∈ rest, other.cleared = true) →
      (node.is_interval = true → ∃ other ∈ before ++ [node], other.cleared = false) ∧
        (node.is_interval = false → ∀ other ∈ before, other.cleared = true)
  | [] => True

instance (before : List LR_TimerNode) :
    (rest : List LR_TimerNode) → Decidable (LeavesRight before rest)
  | _ :: rest =>
    inferInstanceAs (Decidable ((∀ other ∈ rest, _) → (_ → _) ∧ (_ → ∀ other ∈ before, _)))
  | [] => inferInstanceAs (Decidable True)

def RearmFits (now : Int) : List LR_TimerNode → Prop
  | node :: _ => node.is_interval = true → DelayFits node.delay_ms now
  | [] => True

instance (now : Int) : (rest : List LR_TimerNode) → Decidable (RearmFits now rest)
  | _ :: _ => inferInstanceAs (Decidable (_ → _))
  | [] => inferInstanceAs (Decidable True)

namespace State

def Meets (s : State) : Event → Prop
  | .set arguments _ clock => ∀ parts ∈ arguments.check.toOption, DelayFits parts.2 clock
  | .clear timer_id =>
    ∀ node ∈ (s.rt.timer_list.filter (·.id = timer_id)).tail, node.cleared = true
  | .process _ | .turn => True
  | .resume => ∀ processing ∈ s.rt.processing,
      NextLater processing.now s.rt.rest ∧ RearmFits processing.now s.rt.rest ∧
        LeavesRight s.rt.before s.rt.rest

instance (s : State) : (event : Event) → Decidable (s.Meets event)
  | .set arguments _ _ => inferInstanceAs (Decidable (∀ parts ∈ arguments.check.toOption, _))
  | .clear _ => inferInstanceAs (Decidable (∀ node ∈ (_ : List LR_TimerNode), _))
  | .process _ | .turn => inferInstanceAs (Decidable True)
  | .resume => inferInstanceAs (Decidable (∀ processing ∈ s.rt.processing, _))

end State

end LRJS.Timers
