import Mathlib.Data.List.Perm.Basic
import Mathlib.Data.List.Range

/-!
# Ledgers

A ledger numbers the references that a computation takes and notes those that it gives up.
The account of a ledger says which of the references are still held and which were lost; all
references were given up once exactly if none is held and none was lost.
-/

structure Ledger where
  next : Nat
  released : List Nat

namespace Ledger

open List Option

def empty : Ledger :=
  ⟨0, []⟩

def acquire (l : Ledger) : Ledger :=
  ⟨l.next + 1, l.released⟩

def release (l : Ledger) (ref : Nat) : Ledger :=
  ⟨l.next, l.released ++ [ref]⟩

def Settled (l : Ledger) : Prop :=
  l.released.Perm (List.range l.next)

def Accounts (l : Ledger) (held lost : List Nat) : Prop :=
  (l.released ++ held ++ lost).Perm (List.range l.next)

variable {l : Ledger} {held held' lost : List Nat} {ref : Nat}

theorem accounts_empty : empty.Accounts [] [] :=
  List.Perm.refl _

namespace Accounts

/-- What is acquired is held. -/
theorem acquire (accounts : l.Accounts held lost) : l.acquire.Accounts (l.next :: held) lost := by
  unfold Accounts Ledger.acquire
  rw [range_succ]
  refine List.Perm.trans ?_ (accounts.append_right [l.next])
  simp only [append_assoc]
  refine List.Perm.append_left l.released ?_
  refine (@List.perm_append_comm _ [l.next] (held ++ lost)).trans ?_
  rw [append_assoc]

theorem perm (accounts : l.Accounts held lost) (same : held.Perm held') : l.Accounts held' lost :=
  ((same.symm.append_left l.released).append_right lost).trans accounts

/-- What is released is no longer held. -/
theorem release (accounts : l.Accounts (ref :: held) lost) :
    (l.release ref).Accounts held lost := by
  unfold Accounts Ledger.release
  simp only [append_assoc, singleton_append]
  simpa only [Accounts, append_assoc, cons_append] using accounts

theorem lose (accounts : l.Accounts (ref :: held) lost) : l.Accounts held (ref :: lost) := by
  refine List.Perm.trans ?_ accounts
  simp only [append_assoc, cons_append]
  exact List.Perm.append_left l.released perm_middle

/-- Nothing is held and nothing is lost exactly if the ledger is settled. -/
theorem settled_iff (accounts : l.Accounts [] lost) : l.Settled ↔ lost = [] := by
  unfold Accounts at accounts
  rw [append_nil] at accounts
  constructor
  · intro settled
    have total := accounts.length_eq
    rw [length_append, settled.length_eq] at total
    exact eq_nil_of_length_eq_zero (by omega)
  · rintro rfl
    rw [append_nil] at accounts
    exact accounts

end Accounts

end Ledger
