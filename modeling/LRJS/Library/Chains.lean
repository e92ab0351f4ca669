import Mathlib.Logic.Relation
import Mathlib.Data.List.Nodup

/-!
# Chains in memory

A singly linked list in memory: each node may point to a next one.  A chain is
given by its first node and the list of those behind it.
-/

namespace Chains

open List Option

universe u

variable {Node : Type u}

/-- The pointers lead from `first` through `later`, and end there. -/
def Linked (next : Node → Option Node) : Node → List Node → Prop
  | last, [] => next last = none
  | node, second :: later => next node = some second ∧ Linked next second later

def Points (next : Node → Option Node) (node other : Node) : Prop :=
  next node = some other

namespace Linked

variable {next : Node → Option Node} {first : Node} {later : List Node}

theorem head (linked : Linked next first later) : next first = later.head? := by
  cases later with
  | nil => exact linked
  | cons second rest => exact linked.1

theorem tail {second : Node} (linked : Linked next first (second :: later)) :
    Linked next second later :=
  linked.2

theorem last (linked : Linked next first later) : next (later.getLastD first) = none := by
  induction later generalizing first with
  | nil => exact linked
  | cons second rest ih =>
    rw [getLastD_cons]
    exact ih linked.tail

theorem eq_nil (linked : Linked next first later) (none_next : next first = none) : later = [] := by
  rw [linked.head] at none_next
  exact head?_eq_none_iff.mp none_next

/-- The first node reaches every later one. -/
theorem reaches (linked : Linked next first later) {node : Node} (member : node ∈ later) :
    Relation.TransGen (Points next) first node := by
  induction later generalizing first with
  | nil => cases member
  | cons second rest ih =>
    cases List.mem_cons.mp member with
    | inl same => exact same ▸ .single linked.1
    | inr behind => exact .head linked.1 (ih linked.tail behind)

variable [DecidableEq Node]

/-- A node outside of the chain may point anywhere. -/
theorem update_other (linked : Linked next first later) {node : Node} {value : Option Node}
    (apart : node ∉ first :: later) : Linked (Function.update next node value) first later := by
  induction later generalizing first with
  | nil =>
    rw [mem_singleton] at apart
    exact (Function.update_of_ne (Ne.symm apart) ..).trans linked
  | cons second rest ih =>
    rw [mem_cons, not_or] at apart
    exact ⟨(Function.update_of_ne (Ne.symm apart.1) ..).trans linked.1,
      ih linked.tail apart.2⟩

/-- A node that is linked behind the last one is the new last one. -/
theorem append (linked : Linked next first later) (distinct : (first :: later).Nodup)
    {node : Node} (apart : node ∉ first :: later) (none_next : next node = none) :
    Linked (Function.update next (later.getLastD first) (some node)) first
      (later ++ [node]) := by
  induction later generalizing first with
  | nil =>
    rw [mem_singleton] at apart
    exact ⟨Function.update_self .., (Function.update_of_ne apart ..).trans none_next⟩
  | cons second rest ih =>
    rw [mem_cons, not_or] at apart
    obtain ⟨fresh, distinct⟩ := List.nodup_cons.mp distinct
    have other : first ≠ rest.getLastD second := fun same => fresh (same ▸ getLastD_mem_cons)
    rw [getLastD_cons]
    exact ⟨(Function.update_of_ne other ..).trans linked.1,
      ih linked.tail distinct apart.2⟩

end Linked

end Chains
