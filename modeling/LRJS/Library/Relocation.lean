import Mathlib.Algebra.BigOperators.Group.List.Basic
import Mathlib.Algebra.Ring.Nat

/-!
# Relocation

Code in which every instruction is replaced by a block of instructions, and the
address that a position has in the result.
-/

namespace Relocation

open List

universe u v

variable {ι : Type u} {κ : Type v}

/-- The address of position `pos` when `ins` takes up `width ins` places. -/
def address (width : ι → Nat) (code : List ι) (pos : Nat) : Nat :=
  ((code.take pos).map width).sum

variable {width : ι → Nat} {code : List ι} {pos : Nat}

@[simp]
theorem address_zero : address width code 0 = 0 :=
  rfl

theorem address_append (tail : List ι) (bound : pos ≤ code.length) :
    address width (code ++ tail) pos = address width code pos := by
  unfold address
  rw [take_append_of_le_length bound]

theorem address_succ {ins : ι} (fetch : code[pos]? = some ins) :
    address width code (pos + 1) = address width code pos + width ins := by
  unfold address
  rw [take_add_one, fetch]
  simp

/-- A change that keeps the widths leaves every address. -/
theorem address_modify (other : Nat) (change : ι → ι)
    (same : ∀ ins, width (change ins) = width ins) :
    address width (code.modify other change) pos = address width code pos := by
  unfold address
  rw [map_take, map_take]
  congr 2
  refine ext_getElem? fun i => ?_
  simp only [getElem?_map, getElem?_modify]
  cases code[i]? with
  | none =>
    rfl
  | some ins =>
    split
    · simp [same]
    · rfl

variable {block : ι → List κ}

section

variable {ins : ι} (lengths : ∀ ins, (block ins).length = width ins) (fetch : code[pos]? = some ins)
include lengths fetch

theorem getElem?_flatMap {offset : Nat} (inside : offset < width ins) :
    (code.flatMap block)[address width code pos + offset]? = (block ins)[offset]? := by
  induction code generalizing pos with
  | nil =>
    cases fetch
  | cons head rest ih =>
    cases pos with
    | zero =>
      cases fetch
      rw [address_zero, Nat.zero_add, flatMap_cons,
        getElem?_append_left (by rw [lengths]; exact inside)]
    | succ pos =>
      have moved : address width (head :: rest) (pos + 1) =
          (block head).length + address width rest pos := by
        simp [address, lengths]
      rw [flatMap_cons, moved, Nat.add_assoc, getElem?_append_right (by omega),
        Nat.add_sub_cancel_left]
      exact ih fetch

/-- Changing an instruction with a single copy changes the copy at its address. -/
theorem flatMap_modify {change : ι → ι} {change' : κ → κ} {copy : κ} (single : block ins = [copy])
    (changed : block (change ins) = [change' copy]) :
    (code.modify pos change).flatMap block =
      (code.flatMap block).modify (address width code pos) change' := by
  induction code generalizing pos with
  | nil =>
    cases fetch
  | cons head rest ih =>
    cases pos with
    | zero =>
      cases fetch
      rw [address_zero, modify_zero_cons, flatMap_cons, flatMap_cons, changed,
        single]
      rfl
    | succ pos =>
      have moved : address width (head :: rest) (pos + 1) =
          (block head).length + address width rest pos := by
        simp [address, lengths]
      rw [modify_succ_cons, flatMap_cons, flatMap_cons, moved,
        ih fetch]
      exact (modifyTailIdx_add (modifyHead change') (address width rest pos)
        (block head) (rest.flatMap block)).symm

end

theorem length_flatMap (lengths : ∀ ins, (block ins).length = width ins) :
    (code.flatMap block).length = address width code code.length := by
  unfold address
  rw [List.take_length, List.length_flatMap]
  congr 1
  exact List.map_congr_left fun ins _ => lengths ins

end Relocation
