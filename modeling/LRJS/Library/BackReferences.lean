import Mathlib.Algebra.Order.Group.Nat
import Mathlib.Data.List.TakeDrop

/-!
# Back references

A list is built up by literals and by copies out of what has been built so
far; a copy may overlap what it writes.  A copy whose items were compared with
an original extends a prefix of the original to a longer one.
-/

namespace BackReferences

open List Option

universe u

variable {α : Type u}

/-- Copy `length` items, one after the other, from `offset` items back.  What lies behind the
items that are written is `fresh`. -/
def copyBack (fresh : Nat → α) (offset : Nat) : Nat → List α → List α
  | 0, out => out
  | length + 1, out =>
    copyBack fresh offset length (out ++ [out.getD (out.length - offset) (fresh out.length)])

theorem length_copyBack (fresh : Nat → α) (offset length : Nat) (out : List α) :
    (copyBack fresh offset length out).length = out.length + length := by
  induction length generalizing out with
  | zero => rfl
  | succ length ih =>
    rw [copyBack, ih, length_append, length_singleton]
    omega

/-- The items of an original from `start` on are those that stand `offset` items before. -/
def Repeats (original : List α) (start offset length : Nat) : Prop :=
  ∀ k, k < length → original[start + k]? = original[start - offset + k]?

theorem Repeats.tail {original : List α} {start offset length : Nat} (within : offset ≤ start)
    (repeats : Repeats original start offset (length + 1)) :
    Repeats original (start + 1) offset length := by
  intro k less
  have here := repeats (k + 1) (Nat.succ_lt_succ less)
  have place : start - offset + (k + 1) = start + 1 - offset + k := by omega
  rw [place] at here
  rw [← here]
  congr 1
  omega

theorem copyBack_take (fresh : Nat → α) {original : List α} {start offset length : Nat}
    (positive : 0 < offset) (within : offset ≤ start) (bound : start + length ≤ original.length)
    (repeats : Repeats original start offset length) :
    copyBack fresh offset length (original.take start) = original.take (start + length) := by
  induction length generalizing start with
  | zero => rfl
  | succ length ih =>
    have size : (original.take start).length = start := by
      rw [length_take]
      omega
    have first := repeats 0 (Nat.succ_pos length)
    rw [Nat.add_zero, Nat.add_zero] at first
    have item : (original.take start).getD (start - offset) (fresh start) = original[start] := by
      have before : start - offset < start := by omega
      rw [getD_eq_getElem?_getD, getElem?_take_of_lt before, ← first,
        getElem?_eq_getElem (by omega)]
      rfl
    have longer : original.take start ++ [original[start]] = original.take (start + 1) := by
      rw [take_add_one, getElem?_eq_getElem (by omega)]
      rfl
    rw [copyBack, size, item, longer, ih (Nat.le_succ_of_le within) (by omega)
      (repeats.tail within)]
    congr 1
    omega

end BackReferences
