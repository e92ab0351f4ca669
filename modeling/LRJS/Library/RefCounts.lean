import Mathlib.Data.List.Basic
import Mathlib.Data.List.Flatten

/-!
# Reference counts

Counts of references beside the list of all places that hold one.  The counts
are balanced when each is the number of its places; what takes a reference,
moves it or gives it up keeps them balanced.
-/

namespace RefCounts

open List Option

universe u v

variable {Ref : Type u} [DecidableEq Ref] {counts : Ref → Nat} {places places' : List Ref}

def Balanced (counts : Ref → Nat) (places : List Ref) : Prop :=
  ∀ r, counts r = places.count r

def dup (counts : Ref → Nat) (refs : List Ref) : Ref → Nat :=
  fun r => counts r + refs.count r

def free (counts : Ref → Nat) (r : Ref) : Ref → Nat :=
  fun other => if other = r then counts r - 1 else counts other

namespace Balanced

theorem of_count (balanced : Balanced counts places)
    (same : ∀ r, places'.count r = places.count r) : Balanced counts places' := by
  intro r
  rw [same]
  exact balanced r

/-- Taking references keeps the counts in balance. -/
theorem dup (balanced : Balanced counts places) (refs : List Ref) :
    Balanced (dup counts refs) (refs ++ places) := by
  intro r
  rw [count_append, Nat.add_comm]
  exact congrArg (· + refs.count r) (balanced r)

/-- Giving a reference back keeps the counts in balance. -/
theorem free {r : Ref} (balanced : Balanced counts (r :: places)) :
    Balanced (free counts r) places := by
  intro other
  have here := balanced other
  unfold RefCounts.free
  split_ifs with same
  · rw [same, count_cons_self] at here
    rw [same]
    omega
  · rw [here, count_cons_of_ne (Ne.symm same)]

theorem count_pos (balanced : Balanced counts places) {r : Ref} (held : r ∈ places) :
    0 < counts r := by
  rw [balanced r]
  exact List.count_pos_iff.mpr held

theorem notMem (balanced : Balanced counts places) {r : Ref} (none_left : counts r = 0) :
    r ∉ places := by
  intro held
  have := balanced.count_pos held
  omega

end Balanced

theorem free_self (counts : Ref → Nat) (r : Ref) : free counts r r = counts r - 1 :=
  if_pos rfl

theorem free_of_ne (counts : Ref → Nat) {r other : Ref} (different : other ≠ r) :
    free counts r other = counts other :=
  if_neg different

theorem le_dup (counts : Ref → Nat) (refs : List Ref) (r : Ref) : counts r ≤ dup counts refs r :=
  Nat.le_add_right _ _

/-- Replacing an entry of a list moves the count of its references. -/
theorem count_flatMap_set {α : Type v} (f : α → List Ref) {l : List α} {i : Nat} {a : α}
    (found : l[i]? = some a) (b : α) (r : Ref) :
    ((l.set i b).flatMap f).count r + (f a).count r = (l.flatMap f).count r + (f b).count r := by
  induction l generalizing i with
  | nil => cases found
  | cons head rest ih =>
    cases i with
    | zero =>
      cases found
      simp only [set_cons_zero, flatMap_cons, count_append]
      omega
    | succ i =>
      have later := ih found
      simp only [set_cons_succ, flatMap_cons, count_append]
      omega

end RefCounts
