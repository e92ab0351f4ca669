import LRJS.Library.LittleEndian

/-!
# Lists that diverge

Two lists diverge when they have different items at some place, so that no
continuation makes them equal.
-/

namespace Divergence

universe u

variable {α : Type u}

def Diverge (first second : List α) : Prop :=
  ∃ common x y xs ys, x ≠ y ∧ first = common ++ x :: xs ∧ second = common ++ y :: ys

variable {first second : List α}

theorem Diverge.append (diverge : Diverge first second)
    (more more' : List α) : Diverge (first ++ more) (second ++ more') := by
  obtain ⟨common, x, y, xs, ys, other, rfl, rfl⟩ := diverge
  exact ⟨common, x, y, xs ++ more, ys ++ more', other, by simp, by simp⟩

theorem Diverge.after (diverge : Diverge first second)
    (common : List α) : Diverge (common ++ first) (common ++ second) := by
  obtain ⟨here, x, y, xs, ys, other, rfl, rfl⟩ := diverge
  exact ⟨common ++ here, x, y, xs, ys, other, by simp, by simp⟩

theorem Diverge.ne (diverge : Diverge first second) : first ≠ second := by
  obtain ⟨common, x, y, xs, ys, other, rfl, rfl⟩ := diverge
  intro same
  exact other (List.cons.inj (List.append_cancel_left same)).1

/-- Two lists of one length that differ diverge. -/
theorem diverge_of_ne (lengths : first.length = second.length)
    (other : first ≠ second) : Diverge first second := by
  induction first generalizing second with
  | nil => exact absurd (List.length_eq_zero_iff.mp lengths.symm).symm other
  | cons x xs ih =>
    cases second with
    | nil => cases lengths
    | cons y ys =>
      by_cases same : x = y
      · subst same
        have rest := ih (Nat.succ.inj lengths) fun equal =>
          other (congrArg (List.cons x) equal)
        exact rest.after [x]
      · exact ⟨[], x, y, xs, ys, same, rfl, rfl⟩

/-- The bytes of two numbers that fit diverge. -/
theorem diverge_put {width value value' : Nat} (fits : value < 256 ^ width)
    (fits' : value' < 256 ^ width) (other : value ≠ value') :
    Diverge (LittleEndian.put width value) (LittleEndian.put width value') := by
  apply diverge_of_ne
  · rw [LittleEndian.length_put, LittleEndian.length_put]
  · intro same
    have numbers := congrArg LittleEndian.get same
    rw [LittleEndian.get_put_of_lt fits, LittleEndian.get_put_of_lt fits'] at numbers
    exact other numbers

end Divergence
