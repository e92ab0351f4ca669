import LRJS.Library.Chains
import LRJS.Library.Journals
import LRJS.Library.Runs
import Mathlib.Algebra.Ring.Nat
import Mathlib.Logic.Function.Iterate

/-!
# The lock-free queue

`lr_lfq_push` and `lr_lfq_pop` (`lr_lockfree_queue.h`), any number of producers
and one consumer.  Each load, store, CAS and fetch-add of a shared word is one
step; the steps of all of them interleave.
-/

namespace LRJS.TaskQueue

inductive LR_LFQNode where
  /-- The `number`-th stub that the queue has allocated. -/
  | stub (number : Nat)
  | data (number : Nat)
  deriving DecidableEq

abbrev Memory := LR_LFQNode → Option LR_LFQNode

/-- Where a producer is in `lr_lfq_push`. -/
inductive Producer where
  | idle
  /-- At the load of `tail`. -/
  | load (node : LR_LFQNode)
  /-- At the CAS of `prev->next`. -/
  | link (node prev : LR_LFQNode)
  /-- At the CAS of `tail`. -/
  | swing (node prev : LR_LFQNode)
  /-- At the addition to `count`. -/
  | add (node : LR_LFQNode)
  deriving DecidableEq

/-- Where the consumer is in `lr_lfq_pop`. -/
inductive Consumer where
  | idle
  /-- At the load of `head->next`. -/
  | loadNext (head : LR_LFQNode)
  /-- At the load of `next->next`. -/
  | loadNextNext (next : LR_LFQNode)
  /-- At the store of `head`, with the node that is returned. -/
  | advance (next : LR_LFQNode)
  /-- At the store of `head`, with a new stub. -/
  | replaceHead (next new_stub : LR_LFQNode)
  /-- At the store of `tail`, with the new stub. -/
  | replaceTail (next new_stub : LR_LFQNode)
  /-- At the subtraction from `count`. -/
  | add (next : LR_LFQNode)
  deriving DecidableEq

inductive Note where
  | called (producer : Nat) (node : LR_LFQNode)
  | pushed (producer : Nat) (node : LR_LFQNode)
  | popped (node : LR_LFQNode)
  /-- A pop returns `NULL`. -/
  | empty
  deriving DecidableEq

/-- The pushes that no pop has answered, in the order of their calls; and those that have not
returned. -/
structure Account where
  owed : List (Nat × LR_LFQNode)
  pushing : List (Nat × LR_LFQNode)
  deriving DecidableEq

namespace Account

variable (account : Account)

def record : Note → Account
  | .called producer node =>
    ⟨account.owed ++ [(producer, node)], account.pushing ++ [(producer, node)]⟩
  | .pushed producer node => { account with pushing := account.pushing.erase (producer, node) }
  | .popped node => { account with owed := account.owed.eraseP (·.2 = node) }
  | .empty => account

def owedTo (producer : Nat) : List (Nat × LR_LFQNode) :=
  account.owed.filter (·.1 = producer)

/-- A pop returns the node that its producer has pushed first, and `NULL` only if no node is there
whose push has returned. -/
def Allows : Note → Prop
  | .popped node => ∃ producer, (account.owedTo producer).head? = some (producer, node)
  | .empty => ∀ push ∈ account.owed, push ∈ account.pushing
  | .called _ _ | .pushed _ _ => True

end Account

def law : Journals.Law Note Account where
  opening := ⟨[], []⟩
  record := Account.record
  Allows := Account.Allows

structure State where
  next : Memory
  head : LR_LFQNode
  tail : LR_LFQNode
  count : Int
  stubs : Nat
  producers : Nat → Producer
  consumer : Consumer
  journal : List Note

inductive Event where
  /-- A producer calls `lr_lfq_push`, which stores `NULL` into its node. -/
  | push (producer number : Nat)
  | producer (producer : Nat)
  /-- The consumer calls `lr_lfq_pop`, which loads `head`. -/
  | pop
  /-- The consumer goes on; `calloc` fails if it is called. -/
  | consumer (calloc_fails : Bool)
  deriving DecidableEq

namespace State

variable (s : State)

def account : Account :=
  law.account s.journal

def setProducer (producer : Nat) (pc : Producer) : State :=
  { s with producers := Function.update s.producers producer pc }

/-- The call of `lr_lfq_push`. -/
def push (producer : Nat) (node : LR_LFQNode) : State :=
  { s.setProducer producer (.load node) with
    next := Function.update s.next node none
    journal := s.journal ++ [.called producer node] }

/-- A step of `lr_lfq_push`. -/
def produce (producer : Nat) : State :=
  match s.producers producer with
  | .idle => s
  | .load node => s.setProducer producer (.link node s.tail)
  | .link node prev =>
    match s.next prev with
    | none =>
      { s.setProducer producer (.swing node prev) with
        next := Function.update s.next prev (some node) }
    | some _ => s.setProducer producer (.load node)
  | .swing node prev =>
    { s.setProducer producer (.add node) with
      tail := if s.tail = prev then node else s.tail }
  | .add node =>
    { s.setProducer producer .idle with
      count := (s.count + 1).bmod (2 ^ 32)
      journal := s.journal ++ [.pushed producer node] }

/-- A step of `lr_lfq_pop`, after the load of `head`. -/
def consume (calloc_fails : Bool) : State :=
  match s.consumer with
  | .idle => s
  | .loadNext head =>
    match s.next head with
    | none => { s with consumer := .idle, journal := s.journal ++ [.empty] }
    | some next => { s with consumer := .loadNextNext next }
  | .loadNextNext next =>
    match s.next next with
    | some _ => { s with consumer := .advance next }
    | none =>
      if calloc_fails = true then { s with consumer := .advance next }
      else
        { s with
          next := Function.update s.next (.stub s.stubs) none
          stubs := s.stubs + 1
          consumer := .replaceHead next (.stub s.stubs) }
  | .advance next => { s with head := next, consumer := .add next }
  | .replaceHead next new_stub =>
    { s with head := new_stub, consumer := .replaceTail next new_stub }
  | .replaceTail next new_stub => { s with tail := new_stub, consumer := .add next }
  | .add next =>
    { s with
      count := (s.count - 1).bmod (2 ^ 32)
      consumer := .idle
      journal := s.journal ++ [.popped next] }

def step : Event → Option State
  | .push producer number =>
    if s.producers producer = .idle then some (s.push producer (.data number)) else none
  | .producer producer =>
    if s.producers producer = .idle then none else some (s.produce producer)
  | .pop =>
    if s.consumer = .idle then some { s with consumer := .loadNext s.head } else none
  | .consumer calloc_fails =>
    if s.consumer = .idle then none else some (s.consume calloc_fails)

/-- After `lr_lfq_init`. -/
def start : State where
  next _ := none
  head := .stub 0
  tail := .stub 0
  count := 0
  stubs := 1
  producers _ := .idle
  consumer := .idle
  journal := []

def hand : Option LR_LFQNode :=
  match s.consumer with
  | .replaceTail next _ | .add next => some next
  | .idle | .loadNext _ | .loadNextNext _ | .advance _ | .replaceHead _ _ => none

def Holds (node : LR_LFQNode) : Prop :=
  s.hand = some node ∨ Relation.TransGen (Chains.Points s.next) s.head node

def LosesNone : Prop :=
  ∀ push ∈ s.account.owed, push ∉ s.account.pushing → s.Holds push.2

def Completes (producer : Nat) : Prop :=
  ∃ steps, (Nat.iterate (fun s => s.produce producer) steps s).producers producer = Producer.idle

/-- The consumer is between its stores of `head` and of `tail`. -/
def Replacing : Prop :=
  match s.consumer with
  | .replaceTail _ _ => True
  | .idle | .loadNext _ | .loadNextNext _ | .advance _ | .replaceHead _ _ | .add _ => False

instance : Decidable s.Replacing := by
  unfold Replacing
  split <;> infer_instance

/-- A producer links only behind `tail`, not while `head` has been replaced and `tail` has not, and
moves `tail` only on to the next node. -/
def ProducerMeets : Producer → Prop
  | .link _ prev => s.next prev = none → s.tail = prev ∧ ¬s.Replacing
  | .swing node prev => s.tail = prev → s.next prev = some node
  | .idle | .load _ | .add _ => True

instance : (pc : Producer) → Decidable (s.ProducerMeets pc)
  | .link _ _ => inferInstanceAs (Decidable (_ → _ ∧ ¬_))
  | .swing _ _ => inferInstanceAs (Decidable (_ → _))
  | .idle | .load _ | .add _ => inferInstanceAs (Decidable True)

/-- The last node is still the last when `head` is replaced. -/
def ConsumerMeets : Consumer → Prop
  | .replaceHead next _ => s.next next = none
  | .idle | .loadNext _ | .loadNextNext _ | .advance _ | .replaceTail _ _ | .add _ => True

instance : (pc : Consumer) → Decidable (s.ConsumerMeets pc)
  | .replaceHead _ _ => inferInstanceAs (Decidable (_ = _))
  | .idle | .loadNext _ | .loadNextNext _ | .advance _ | .replaceTail _ _ | .add _ =>
    inferInstanceAs (Decidable True)

/-- The condition on a step.  A node that is pushed is not in the queue, and not the node that was
popped last and serves as a stub. -/
def Meets (s : State) : Event → Prop
  | .push _ number => (∀ push ∈ s.account.owed, push.2 ≠ .data number) ∧
      s.head ≠ .data number ∧ s.tail ≠ .data number
  | .producer producer => s.ProducerMeets (s.producers producer)
  | .pop => True
  | .consumer _ => s.ConsumerMeets s.consumer

instance (s : State) : (event : Event) → Decidable (s.Meets event)
  | .push _ _ => inferInstanceAs (Decidable (_ ∧ _ ∧ _))
  | .producer _ => inferInstanceAs (Decidable (s.ProducerMeets _))
  | .pop => inferInstanceAs (Decidable True)
  | .consumer _ => inferInstanceAs (Decidable (s.ConsumerMeets _))

/-- The producer needs no other to go on: it has linked its node, or it will find a node behind
which none is linked. -/
def Free : Producer → Prop
  | .load _ => s.next s.tail = none
  | .link _ prev => s.next prev = none ∨ s.next s.tail = none
  | .idle | .swing _ _ | .add _ => True

end State

end LRJS.TaskQueue
