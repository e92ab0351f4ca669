import LRJS.Library.Journals
import LRJS.Library.Runs
import Mathlib.Algebra.Ring.Nat
import Mathlib.Data.List.Count

/-!
# Workers

`Worker` objects and the messages between them and their parents
(`lr_worker.c`), with the threads of the workers and the runtimes that poll
them as steps that interleave.  What is done under a mutex is one step.
-/

namespace LRJS.Workers

/-- A runtime, by its address: one that is there throughout, or one that `lr_runtime_new` makes for
a worker, at an address that may have been that of a freed one. -/
inductive LR_Runtime where
  | host (n : Nat)
  | worker (address : Nat)
  deriving DecidableEq

/-- A wire value: a serialized message, or one of type `WIRE_ERROR`. -/
inductive LR_WireValue where
  | message (value : Nat)
  | error (s : String)
  deriving DecidableEq

def capacity : Nat := 64

/-- The length of `matches` in `lr_worker_poll`. -/
def snapshot : Nat := 64

inductive Handler where
  | onmessage_cb
  | onerror_cb
  | onmessage
  deriving DecidableEq

/-- The handler that `lr_worker_poll` calls. -/
def LR_WireValue.handler : LR_WireValue → Handler
  | .message _ => .onmessage_cb
  | .error _ => .onerror_cb

inductive Direction where
  | toWorker
  | toParent
  deriving DecidableEq

inductive Note where
  | created (k : Nat) (parent : LR_Runtime)
  | failed (k : Nat)
  | handler (k : Nat) (handler : Handler) (present : Bool)
  /-- `postMessage` returns, or the error of a script is sent. -/
  | accepted (k : Nat) (direction : Direction) (wire : LR_WireValue)
  /-- `postMessage` of the parent throws. -/
  | refused (k : Nat) (message : String)
  | took (k : Nat) (direction : Direction) (wire : LR_WireValue) (called : Bool)
  | idle (k : Nat)
  /-- `lr_worker_poll` is called. -/
  | polling (rt : LR_Runtime)
  | turn (rt : LR_Runtime)
  | polled (rt : LR_Runtime) (alive : Nat)
  | terminated (k : Nat)
  | stopped (k : Nat)
  deriving DecidableEq

/-- A worker: the messages on their way, and for those to the parent if they were there at the last
beginning of a poll. -/
structure Entry where
  parent : Option LR_Runtime
  handlers : Handler → Bool
  inbound : List LR_WireValue
  outbound : List (LR_WireValue × Bool)
  terminated : Bool
  stopped : Bool

namespace Entry

variable (entry : Entry)

def accept (wire : LR_WireValue) : Direction → Entry
  | .toWorker =>
    if entry.stopped = true then entry else { entry with inbound := entry.inbound ++ [wire] }
  | .toParent => { entry with outbound := entry.outbound ++ [(wire, false)] }

def take : Direction → Entry
  | .toWorker => { entry with inbound := entry.inbound.tail }
  | .toParent => { entry with outbound := entry.outbound.tail }

def first : Direction → Option LR_WireValue
  | .toWorker => entry.inbound.head?
  | .toParent => entry.outbound.head?.map Prod.fst

def hasHandler (wire : LR_WireValue) : Direction → Bool
  | .toWorker => entry.handlers .onmessage
  | .toParent => entry.handlers wire.handler

def mark (rt : LR_Runtime) : Entry :=
  if entry.parent = some rt then
    { entry with outbound := entry.outbound.map fun sent => (sent.1, true) }
  else entry

end Entry

/-- `taken` counts the messages that a runtime has taken since it has come to a worker. -/
structure Account where
  entries : Nat → Entry
  taken : LR_Runtime → Nat

namespace Account

variable (account : Account)

def enter (k : Nat) (entry : Entry) : Account :=
  { account with entries := Function.update account.entries k entry }

def record : Note → Account
  | .created k parent => account.enter k { account.entries k with parent := some parent }
  | .failed k => account.enter k
      { account.entries k with inbound := [], terminated := true, stopped := true }
  | .handler k handler present => account.enter k
      { account.entries k with
        handlers := Function.update (account.entries k).handlers handler present }
  | .accepted k direction wire => account.enter k ((account.entries k).accept wire direction)
  | .took k .toWorker _ _ => account.enter k ((account.entries k).take .toWorker)
  | .took k .toParent _ _ =>
    { account.enter k ((account.entries k).take .toParent) with
      taken := match (account.entries k).parent with
        | none => account.taken
        | some rt => Function.update account.taken rt (account.taken rt + 1) }
  | .polling rt =>
    { entries := fun k => (account.entries k).mark rt
      taken := Function.update account.taken rt 0 }
  | .turn rt => { account with taken := Function.update account.taken rt 0 }
  | .terminated k => account.enter k { account.entries k with terminated := true }
  | .stopped k => account.enter k { account.entries k with inbound := [], stopped := true }
  | .refused _ _ | .idle _ | .polled _ _ => account

/-- The receiver takes the messages in order, and calls its handler with each if it has one.  A
worker is idle only when no message is on its way to it, and stops only when terminated.  When a
poll ends, no message is left from its beginning; and it takes no more messages of a worker than the
queue holds before the next. -/
def Allows : Note → Prop
  | .took k direction wire called =>
    (account.entries k).first direction = some wire ∧
      called = (account.entries k).hasHandler wire direction ∧
      (direction = .toParent →
        ∀ rt ∈ (account.entries k).parent, account.taken rt < capacity)
  | .idle k => (account.entries k).inbound = []
  | .polled rt _ => ∀ k, (account.entries k).parent = some rt →
      ∀ sent ∈ (account.entries k).outbound, sent.2 = false
  | .stopped k => (account.entries k).terminated = true
  | .created _ _ | .failed _ | .handler _ _ _ | .accepted _ _ _ | .refused _ _ | .polling _
  | .turn _ | .terminated _ => True

end Account

def law : Journals.Law Note Account where
  opening := ⟨fun _ => ⟨none, fun _ => false, [], [], false, false⟩, fun _ => 0⟩
  record := Account.record
  Allows := Account.Allows

/-- Where a worker is: in its constructor, or in `lr_worker_thread_fn`. -/
inductive WorkerAt where
  | unborn
  /-- At `pthread_create`. -/
  | create
  | unstarted
  /-- At `lr_runtime_new`. -/
  | start
  /-- In `lr_eval_file`. -/
  | script
  | check
  | receive
  | handle
  | drain
  /-- At `lr_runtime_free`. -/
  | free
  /-- At `worker_rt = NULL`. -/
  | clear
  /-- At `running = 0`. -/
  | finish
  | gone
  deriving DecidableEq

def WorkerAt.Made (pc : WorkerAt) : Prop :=
  pc ≠ .unborn ∧ pc ≠ .create ∧ pc ≠ .unstarted

instance (pc : WorkerAt) : Decidable pc.Made :=
  inferInstanceAs (Decidable (_ ∧ _))

/-- A message that could not be serialized is `none`.  The handlers are given by whether they are
functions. -/
structure LR_WorkerData where
  id : Int
  parent_rt : LR_Runtime
  worker_rt : Option LR_Runtime
  running : Bool
  should_stop : Bool
  in_queue : List (Option LR_WireValue)
  out_queue : List (Option LR_WireValue)
  onmessage_cb : Bool
  onerror_cb : Bool
  /-- `onmessage` of the global object of the worker. -/
  onmessage : Bool
  pc : WorkerAt
  deriving DecidableEq

namespace LR_WorkerData

def new (id : Int) (parent_rt : LR_Runtime) (pc : WorkerAt) : LR_WorkerData :=
  ⟨id, parent_rt, none, true, false, [], [], false, false, false, pc⟩

variable (wd : LR_WorkerData)

def handler : Handler → Bool
  | .onmessage_cb => wd.onmessage_cb
  | .onerror_cb => wd.onerror_cb
  | .onmessage => wd.onmessage

def setHandler (present : Bool) : Handler → LR_WorkerData
  | .onmessage_cb => { wd with onmessage_cb := present }
  | .onerror_cb => { wd with onerror_cb := present }
  | .onmessage => { wd with onmessage := present }

def goto (pc : WorkerAt) : LR_WorkerData :=
  { wd with pc := pc }

/-- The worker runs code of its own. -/
def Runs : Prop :=
  wd.pc = .script ∨ wd.pc = .handle

instance : Decidable wd.Runs :=
  inferInstanceAs (Decidable (_ ∨ _))

end LR_WorkerData

/-- The locals of `lr_worker_poll`, with the workers of `matches` from `m` on.  `taken` counts the
messages taken of the first. -/
structure Poll where
  alive : Nat
  remaining : List Nat
  taken : Nat
  deriving DecidableEq

/-- Workers are numbered as they are created; `posting` has the calls of `postMessage` at
`wire_serialize`: the worker that is meant and the one that is found. -/
structure State where
  /-- `g_worker_registry`. -/
  registry : List Nat
  /-- `g_worker_next_id`. -/
  next_id : Int
  workers : Nat → LR_WorkerData
  created : Nat
  posting : List (Nat × Nat)
  polls : LR_Runtime → Option Poll
  journal : List Note

inductive Event where
  /-- `lr_worker_constructor`, up to `pthread_create`. -/
  | construct (rt : LR_Runtime)
  | pthread_create (k : Nat) (succeeds : Bool)
  | lr_runtime_new (k : Nat) (address : Option Nat)
  /-- `lr_eval_file` fails in a worker; `wire_new` may fail as well. -/
  | scriptFails (k : Nat) (err : Option String) (allocates : Bool)
  | worker (k : Nat)
  /-- The code of a worker sets its `onmessage`. -/
  | setOnmessage (k : Nat) (present : Bool)
  /-- `postMessage` of a worker. -/
  | postMessage_external (k : Nat) (value : Nat) (serializes : Bool)
  /-- `postMessage` of a parent, up to `wire_serialize`. -/
  | postMessage (k : Nat)
  | enqueue (k found : Nat) (value : Nat) (serializes : Bool)
  | terminate (k : Nat)
  /-- A parent sets `onmessage` or `onerror`. -/
  | setCallback (k : Nat) (is_err : Bool) (present : Bool)
  | poll (rt : LR_Runtime)
  | turn (rt : LR_Runtime)
  deriving DecidableEq

namespace State

variable (s : State)

def account : Account :=
  law.account s.journal

def setWorker (k : Nat) (wd : LR_WorkerData) : State :=
  { s with workers := Function.update s.workers k wd }

def note (note : Note) : State :=
  { s with journal := s.journal ++ [note] }

def Active : LR_Runtime → Prop
  | .host _ => True
  | .worker address =>
    ∃ k < s.created, (s.workers k).worker_rt = some (.worker address) ∧ (s.workers k).Runs

instance (rt : LR_Runtime) : Decidable (s.Active rt) :=
  match rt with
  | .host _ => inferInstanceAs (Decidable True)
  | .worker _ => inferInstanceAs (Decidable (∃ k < _, _))

/-- The allocator has the block: no worker is between `lr_runtime_new` and `lr_runtime_free`
with it. -/
def Free (address : Nat) : Prop :=
  ∀ k < s.created, (s.workers k).worker_rt = some (.worker address) → (s.workers k).pc = .clear

instance (address : Nat) : Decidable (s.Free address) :=
  inferInstanceAs (Decidable (∀ k < _, _))

def Reachable (k : Nat) : Prop :=
  (s.workers k).pc.Made ∧ s.Active (s.workers k).parent_rt

instance (k : Nat) : Decidable (s.Reachable k) :=
  inferInstanceAs (Decidable (_ ∧ _))

def lr_worker_register (wd : LR_WorkerData) : State :=
  { s.setWorker s.created { wd with id := s.next_id } with
    registry := s.created :: s.registry
    next_id := (s.next_id + 1).bmod (2 ^ 32)
    created := s.created + 1 }

def lr_worker_lookup (id : Int) : Option Nat :=
  s.registry.find? fun k => (s.workers k).id = id

def lr_worker_lookup_by_worker_rt (rt : LR_Runtime) : Option Nat :=
  s.registry.find? fun k => (s.workers k).worker_rt = some rt

def lr_worker_unregister (id : Int) : State :=
  { s with registry := s.registry.eraseP fun k => (s.workers k).id = id }

/-- `lr_worker_constructor`. -/
def construct (rt : LR_Runtime) : State :=
  (s.lr_worker_register (.new 0 rt .create)).note (.created s.created rt)

/-- The end of `lr_worker_constructor`. -/
def pthread_create (k : Nat) (succeeds : Bool) : State :=
  if succeeds = true then
    s.setWorker k ((s.workers k).goto .start)
  else
    ((s.lr_worker_unregister (s.workers k).id).setWorker k
      ((s.workers k).goto .unstarted)).note (.failed k)

def lr_runtime_new (k : Nat) (address : Option Nat) : State :=
  match address with
  | some address =>
    s.setWorker k { (s.workers k).goto .script with worker_rt := some (.worker address) }
  | none =>
    (s.setWorker k { (s.workers k).goto .gone with running := false }).note (.failed k)

def scriptFails (k : Nat) (err : Option String) (allocates : Bool) : State :=
  let wd := (s.workers k).goto .check
  let wire := LR_WireValue.error (err.getD "Worker error")
  if allocates = true ∧ wd.out_queue.length < capacity then
    (s.setWorker k { wd with out_queue := wd.out_queue ++ [some wire] }).note
      (.accepted k .toParent wire)
  else
    s.setWorker k wd

def receive (k : Nat) : State :=
  let wd := s.workers k
  match wd.in_queue with
  | [] => (s.setWorker k (wd.goto .check)).note (.idle k)
  | none :: rest =>
    (s.setWorker k { wd.goto .check with in_queue := rest }).note (.idle k)
  | some wire :: rest =>
    (s.setWorker k { wd.goto .handle with in_queue := rest }).note
      (.took k .toWorker wire wd.onmessage)

/-- A step of `lr_worker_thread_fn`. -/
def lr_worker_thread_fn (k : Nat) : Option State :=
  let wd := s.workers k
  match wd.pc with
  | .script | .handle =>
    if wd.worker_rt.bind s.polls = none then some (s.setWorker k (wd.goto .check)) else none
  | .check =>
    if wd.running = true ∧ wd.should_stop = false then
      some (s.setWorker k (wd.goto .receive))
    else
      some (s.setWorker k (wd.goto .drain))
  | .receive => some (s.receive k)
  | .drain =>
    some ((s.setWorker k { wd.goto .free with in_queue := [] }).note (.stopped k))
  -- the registry keeps the pointer to the freed runtime until the next step
  | .free => some (s.setWorker k (wd.goto .clear))
  | .clear => some (s.setWorker k { wd.goto .finish with worker_rt := none })
  | .finish => some (s.setWorker k { wd.goto .gone with running := false })
  | .unborn | .create | .unstarted | .start | .gone => none

/-- A message that is serialized, or `none`. -/
def serialize (value : Nat) (serializes : Bool) : Option LR_WireValue :=
  if serializes = true then some (.message value) else none

def lr_worker_postMessage_external (k : Nat) (value : Nat) (serializes : Bool) : State :=
  match (s.workers k).worker_rt.bind s.lr_worker_lookup_by_worker_rt with
  | none => s.note (.accepted k .toParent (.message value))
  | some found =>
    let wd := s.workers found
    if wd.out_queue.length < capacity then
      (s.setWorker found
        { wd with out_queue := wd.out_queue ++ [serialize value serializes] }).note
          (.accepted k .toParent (.message value))
    else
      s.note (.accepted k .toParent (.message value))

/-- `lr_worker_postMessage`, up to `wire_serialize`. -/
def lr_worker_postMessage (k : Nat) : State :=
  match s.lr_worker_lookup (s.workers k).id with
  | none => s.note (.refused k "Worker has been terminated")
  | some found =>
    if (s.workers found).running = true then
      { s with posting := (k, found) :: s.posting }
    else
      s.note (.refused k "Worker has been terminated")

def enqueue (k found : Nat) (value : Nat) (serializes : Bool) : State :=
  let wd := s.workers found
  let s := { s with posting := s.posting.erase (k, found) }
  if capacity ≤ wd.in_queue.length then
    s.note (.refused k "Worker message queue full")
  else
    (s.setWorker found { wd with in_queue := wd.in_queue ++ [serialize value serializes] }).note
      (.accepted k .toWorker (.message value))

def lr_worker_terminate (k : Nat) : State :=
  match s.lr_worker_lookup (s.workers k).id with
  | none => s.note (.terminated k)
  | some found =>
    (s.setWorker found { s.workers found with should_stop := true, running := false }).note
      (.terminated k)

/-- `lr_worker_set_onmessage` and `lr_worker_set_onerror`. -/
def setCallback (k : Nat) (handler : Handler) (present : Bool) : State :=
  match s.lr_worker_lookup (s.workers k).id with
  | none => s.note (.handler k handler present)
  | some found =>
    (s.setWorker found ((s.workers found).setHandler present handler)).note
      (.handler k handler present)

def children (rt : LR_Runtime) : List Nat :=
  s.registry.filter fun k => (s.workers k).parent_rt = rt

def setPoll (rt : LR_Runtime) (poll : Option Poll) : State :=
  { s with polls := Function.update s.polls rt poll }

/-- `lr_worker_poll`, up to the unlock of the registry. -/
def lr_worker_poll (rt : LR_Runtime) : State :=
  (s.setPoll rt (some
    { alive := (s.children rt).countP fun k => (s.workers k).running
      remaining := (s.children rt).take snapshot
      taken := 0 })).note (.polling rt)

def turn (rt : LR_Runtime) (poll : Poll) : State :=
  match poll.remaining with
  | [] => (s.setPoll rt none).note (.polled rt poll.alive)
  | k :: remaining =>
    let wd := s.workers k
    match wd.out_queue with
    | [] => (s.setPoll rt (some ⟨poll.alive, remaining, 0⟩)).note (.turn rt)
    | none :: rest =>
      ((s.setWorker k { wd with out_queue := rest }).setPoll rt
        (some ⟨poll.alive, remaining, 0⟩)).note (.turn rt)
    | some wire :: rest =>
      ((s.setWorker k { wd with out_queue := rest }).setPoll rt
        (some { poll with taken := poll.taken + 1 })).note
          (.took k .toParent wire (wd.handler wire.handler))

def step : Event → Option State
  | .construct rt => if s.Active rt then some (s.construct rt) else none
  | .pthread_create k succeeds =>
    if (s.workers k).pc = .create then some (s.pthread_create k succeeds) else none
  | .lr_runtime_new k address =>
    if (s.workers k).pc = .start ∧ ∀ a ∈ address, s.Free a then
      some (s.lr_runtime_new k address)
    else none
  | .scriptFails k err allocates =>
    if (s.workers k).pc = .script ∧ (s.workers k).worker_rt.bind s.polls = none then
      some (s.scriptFails k err allocates)
    else none
  | .worker k => s.lr_worker_thread_fn k
  | .setOnmessage k present =>
    if (s.workers k).Runs then
      some ((s.setWorker k ((s.workers k).setHandler present .onmessage)).note
        (.handler k .onmessage present))
    else none
  | .postMessage_external k value serializes =>
    if (s.workers k).Runs then
      some (s.lr_worker_postMessage_external k value serializes)
    else none
  | .postMessage k => if s.Reachable k then some (s.lr_worker_postMessage k) else none
  | .enqueue k found value serializes =>
    if (k, found) ∈ s.posting then some (s.enqueue k found value serializes) else none
  | .terminate k => if s.Reachable k then some (s.lr_worker_terminate k) else none
  | .setCallback k is_err present =>
    if s.Reachable k then
      some (s.setCallback k (if is_err = true then .onerror_cb else .onmessage_cb) present)
    else none
  | .poll rt =>
    if s.Active rt ∧ s.polls rt = none then some (s.lr_worker_poll rt) else none
  | .turn rt => (s.polls rt).map (s.turn rt)

def start : State where
  registry := []
  next_id := 1
  workers := fun _ => .new 0 (.host 0) .unborn
  created := 0
  posting := []
  polls := fun _ => none
  journal := []

def LosesNone : Prop :=
  ∀ k, (s.account.entries k).outbound.map (fun sent => some sent.1) = (s.workers k).out_queue ∧
    ((s.account.entries k).stopped = false →
      (s.account.entries k).inbound.map some = (s.workers k).in_queue)

def Addressed (k : Nat) : Prop :=
  s.lr_worker_lookup (s.workers k).id = some k

instance (k : Nat) : Decidable (s.Addressed k) :=
  inferInstanceAs (Decidable (_ = _))

def takenOf (k : Nat) : Nat :=
  match s.polls (s.workers k).parent_rt with
  | none => 0
  | some poll => if poll.remaining.head? = some k then poll.taken else 0

def HasRoom (k : Nat) : Prop :=
  (s.workers k).out_queue.length + s.takenOf k < capacity

instance (k : Nat) : Decidable (s.HasRoom k) :=
  inferInstanceAs (Decidable (_ < _))

/-- No worker has the address left as its own runtime's or as its parent's. -/
def Unkept (address : Nat) : Prop :=
  ∀ k < s.created, (s.workers k).worker_rt ≠ some (.worker address) ∧
    (s.workers k).parent_rt ≠ .worker address

instance (address : Nat) : Decidable (s.Unkept address) :=
  inferInstanceAs (Decidable (∀ k < _, _))

/-- An object is used while its id is its own, no runtime is made at an address that a worker still
keeps, messages can be serialized, a worker posts only where its out queue has room, and no worker
behind the first 64 of a runtime that polls has sent anything. -/
def Meets (s : State) : Event → Prop
  | .pthread_create k succeeds => succeeds = false → s.Addressed k
  | .lr_runtime_new _ (some address) => s.Unkept address
  | .postMessage k | .terminate k | .setCallback k _ _ => s.Addressed k
  | .scriptFails k _ allocates =>
    allocates = true → (s.workers k).out_queue.length < capacity → s.HasRoom k
  | .postMessage_external k _ serializes => serializes = true ∧ s.HasRoom k
  | .enqueue _ found _ serializes =>
    serializes = true ∨ capacity ≤ (s.workers found).in_queue.length
  | .poll rt => ∀ k ∈ (s.children rt).drop snapshot, (s.workers k).out_queue = []
  | .construct _ | .lr_runtime_new _ none | .worker _ | .setOnmessage _ _ | .turn _ => True

instance (event : Event) : Decidable (Meets s event) := by
  unfold Meets
  split <;> infer_instance

end State

end LRJS.Workers
