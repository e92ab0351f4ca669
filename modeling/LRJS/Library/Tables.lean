import Mathlib.Data.List.Infix

/-!
# Append-only tables

A table is a list of keys in which a key is found at its first index.  Growing
a table at the end never moves a key that it already has.
-/

namespace Tables

open List Option

variable {Key : Type*}

/-- A table with room for `limit` keys grew from `before` to `after`. -/
structure Grows (limit : Nat) (before after : List Key) : Prop where
  extends_ : before <+: after
  full : limit ≤ before.length → after = before

namespace Grows

variable {limit : Nat} {first second third : List Key}

theorem rfl : Grows limit first first :=
  ⟨prefix_rfl, fun _ => Eq.refl first⟩

theorem trans (left : Grows limit first second) (right : Grows limit second third) :
    Grows limit first third where
  extends_ := left.extends_.trans right.extends_
  full := fun isFull => by
    have same := left.full isFull
    rw [right.full (same ▸ isFull), same]

theorem append {added : List Key} (room : first.length < limit) :
    Grows limit first (first ++ added) :=
  ⟨prefix_append _ _, fun isFull => absurd isFull (Nat.not_le.mpr room)⟩

theorem comparable {keys : List Key} (grows : Grows limit (keys.take limit) first) :
    keys <+: first ∨ first <+: keys := by
  rcases Nat.lt_or_ge keys.length limit with short | long
  · left
    have extends_ := grows.extends_
    rwa [take_of_length_le short.le] at extends_
  · right
    rw [grows.full (by rw [length_take, Nat.min_eq_left long])]
    exact take_prefix _ _

end Grows

/-- The keys that a table gains when each of `keys` is entered, unless it is there already or
the table is full. -/
def added [DecidableEq Key] (limit : Nat) : List Key → List Key → List Key
  | _, [] => []
  | table, key :: keys =>
    if key ∈ table ∨ limit ≤ table.length then
      added limit table keys
    else
      key :: added limit (table ++ [key]) keys

theorem added_append [DecidableEq Key] {limit : Nat} (table first second : List Key) :
    added limit table (first ++ second) =
      added limit table first ++ added limit (table ++ added limit table first) second := by
  induction first generalizing table with
  | nil => simp [added]
  | cons key first ih =>
    rw [cons_append, added, added]
    split
    · exact ih table
    · rw [ih, cons_append, append_assoc, singleton_append]

section Indices

variable [DecidableEq Key]

section

variable {table : List Key} {key : Key} {index : Nat} (found : table.idxOf? key = some index)
include found

theorem idxOf?_of_growth {grown : List Key} (growth : table <+: grown) :
    grown.idxOf? key = some index := by
  obtain ⟨added, equality⟩ := growth
  rw [← equality, idxOf?, findIdx?_append]
  rw [idxOf?] at found
  rw [found]
  rfl

theorem getElem?_of_idxOf? : table[index]? = some key := by
  obtain ⟨bound, equality, -⟩ := idxOf?_eq_some_iff.mp found
  rw [getElem?_eq_getElem bound]
  simpa using equality

end

/-- Two tables that grew from one another agree on the first index of every
key that both hold. -/
theorem idxOf?_of_comparable {left right : List Key} {key : Key} {index : Nat}
    (comparable : left <+: right ∨ right <+: left)
    (found : left.idxOf? key = some index) (member : key ∈ right) :
    right.idxOf? key = some index := by
  rcases comparable with growth | growth
  · exact idxOf?_of_growth found growth
  · cases equality : right.idxOf? key with
    | none =>
      rw [idxOf?_eq_none_iff] at equality
      exact absurd member equality
    | some other =>
      rw [← idxOf?_of_growth equality growth, found]

end Indices

end Tables
