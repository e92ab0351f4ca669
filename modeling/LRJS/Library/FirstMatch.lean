import Mathlib.Data.List.Basic

/-!
# First matches

The first item of a kind in a strict total order, and when the first items of two
kinds are the same.
-/

namespace FirstMatch

universe u

variable {α : Type u} {before : α → α → Prop}

def IsFirst (before : α → α → Prop) (wanted : α → Prop) : Option α → Prop
  | some item => wanted item ∧ ∀ other, wanted other → ¬ before other item
  | none => ∀ item, ¬ wanted item

theorem isFirst_find? [Std.Asymm before] {items : List α} (sorted : items.Pairwise before)
    (test : α → Bool) :
    IsFirst before (fun item => item ∈ items ∧ test item) (items.find? test) := by
  cases finds : items.find? test with
  | none =>
    intro item wanted
    exact absurd wanted.2 (List.find?_eq_none.mp finds item wanted.1)
  | some item =>
    obtain ⟨holds, earlier, later, rfl, fails⟩ := List.find?_eq_some_iff_append.mp finds
    refine ⟨⟨by simp, holds⟩, fun other wanted sooner => ?_⟩
    have behind := (List.pairwise_append.mp sorted).2.1
    rcases List.mem_append.mp wanted.1 with inside | inside
    · exact absurd wanted.2 (by simpa using fails other inside)
    · cases inside with
      | head => exact Std.Asymm.asymm _ _ sooner sooner
      | tail _ inside =>
        exact Std.Asymm.asymm _ _ sooner (List.rel_of_pairwise_cons behind inside)

/-- The first seen item is the first wanted one where each item on which the two kinds differ
stands behind one of both kinds. -/
theorem isFirst_iff [IsStrictTotalOrder α before] {wanted seen : α → Prop} {result : Option α}
    (first : IsFirst before seen result) :
    IsFirst before wanted result ↔
      ∀ item, ¬(wanted item ↔ seen item) →
        ∃ other, before other item ∧ wanted other ∧ seen other := by
  cases result with
  | none =>
    constructor
    · intro none item differ
      exact absurd (iff_of_false (none item) (first item)) differ
    · intro preceded item isWanted
      obtain ⟨other, _, _, isSeen⟩ := preceded item fun same => first item (same.mp isWanted)
      exact first other isSeen
  | some found =>
    constructor
    · intro ⟨isWanted, least⟩ item differ
      refine ⟨found, ?_, isWanted, first.1⟩
      rcases trichotomous_of before found item with sooner | same | later
      · exact sooner
      · exact absurd (iff_of_true (same ▸ isWanted) (same ▸ first.1)) differ
      · exact absurd
          (iff_of_false (fun isWanted => least item isWanted later)
            (fun isSeen => first.2 item isSeen later))
          differ
    · intro preceded
      have notBefore (item : α) (sooner : before item found) : ¬ wanted item := by
        intro isWanted
        obtain ⟨other, earlier, _, isSeen⟩ := preceded item fun same =>
          first.2 item (same.mp isWanted) sooner
        exact first.2 other isSeen (trans_of before earlier sooner)
      refine ⟨?_, fun other isWanted sooner => notBefore other sooner isWanted⟩
      by_contra unwanted
      obtain ⟨other, earlier, isWanted, _⟩ := preceded found fun same =>
        unwanted (same.mpr first.1)
      exact notBefore other earlier isWanted

end FirstMatch
