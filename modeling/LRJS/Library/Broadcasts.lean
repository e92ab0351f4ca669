import Mathlib.Data.List.TakeWhile

/-!
# Broadcasts to listeners

Listeners register with a target, in order.  A dispatch goes through the listeners that are
registered when it starts, calls those that are still registered when it comes to them, and
waits while a listener runs, which may do anything in between.
-/

namespace Broadcast

open List Option

structure Entry (Callback : Type) where
  id : Nat
  callback : Callback
  once : Bool
  deriving DecidableEq

structure Dispatch (Target Callback Event : Type) where
  target : Target
  event : Event
  pending : List (Entry Callback)
  stopped : Bool

structure Board (Target Callback Event : Type) where
  entries : Target → List (Entry Callback)
  running : List (Dispatch Target Callback Event)
  next : Nat
  calls : List (Target × Entry Callback × Event)

inductive Action (Target Callback Event : Type) where
  | add (target : Target) (callback : Callback) (once : Bool)
  | remove (target : Target) (callback : Callback)
  | dispatch (target : Target) (event : Event)
  | stop (event : Event)
  | resume

namespace Board

variable {Target Callback Event : Type}
variable [DecidableEq Target] [DecidableEq Callback]

def empty : Board Target Callback Event :=
  ⟨fun _ => [], [], 0, []⟩

def advance (b : Board Target Callback Event) (d : Dispatch Target Callback Event) :
    Board Target Callback Event :=
  match d.stopped, d.pending.dropWhile (· ∉ b.entries d.target) with
  | false, entry :: pending =>
    { b with
      entries :=
        if entry.once then
          Function.update b.entries d.target ((b.entries d.target).filter (· ≠ entry))
        else b.entries
      running := { d with pending } :: b.running
      calls := b.calls ++ [(d.target, entry, d.event)] }
  | _, _ => b

def step [DecidableEq Event] (b : Board Target Callback Event) :
    Action Target Callback Event → Option (Board Target Callback Event)
  | .add target callback once =>
    some { b with
      entries := Function.update b.entries target
        (b.entries target ++ [⟨b.next, callback, once⟩])
      next := b.next + 1 }
  | .remove target callback =>
    some { b with
      entries := Function.update b.entries target
        ((b.entries target).filter (·.callback ≠ callback)) }
  | .dispatch target event => some (b.advance ⟨target, event, b.entries target, false⟩)
  | .stop event =>
    some { b with
      running := b.running.map fun d =>
        if d.event = event then { d with stopped := true } else d }
  | .resume =>
    match b.running with
    | [] => none
    | d :: rest => some ({ b with running := rest }.advance d)

variable {b : Board Target Callback Event} {d : Dispatch Target Callback Event}

/-- A dispatch without an entry left calls nobody. -/
theorem advance_eq_self
    (left : d.pending.filter (· ∈ b.entries d.target) = []) : b.advance d = b := by
  have none_left : d.pending.dropWhile (· ∉ b.entries d.target) = [] := by
    refine dropWhile_eq_nil_iff.mpr fun entry member => ?_
    have absent := filter_eq_nil_iff.mp left entry member
    exact decide_eq_true fun here => absent (decide_eq_true here)
  unfold advance
  rw [none_left]
  cases d.stopped <;> rfl

/-- The next registered entry is the first one that is not skipped. -/
theorem dropWhile_of_filter {entry : Entry Callback}
    {rest pending registered : List (Entry Callback)}
    (left : pending.filter (· ∈ registered) = entry :: rest) :
    ∃ later, pending.dropWhile (· ∉ registered) = entry :: later ∧
      later.filter (· ∈ registered) = rest ∧ later.Sublist pending ∧ entry ∈ pending ∧
        entry ∈ registered := by
  induction pending with
  | nil => cases left
  | cons first pending ih =>
    by_cases here : first ∈ registered
    · rw [filter_cons, if_pos (decide_eq_true here)] at left
      cases left
      refine ⟨pending, ?_, rfl, sublist_cons_self _ _, mem_cons_self, here⟩
      rw [dropWhile_cons, if_neg fun absent => absurd here (of_decide_eq_true absent)]
    · rw [filter_cons, if_neg fun there => here (of_decide_eq_true there)] at left
      obtain ⟨later, dropped, same, part, member, known⟩ := ih left
      refine ⟨later, ?_, same, part.cons _, mem_cons_of_mem _ member, known⟩
      rw [dropWhile_cons, if_pos (decide_eq_true here), dropped]

end Board

end Broadcast
