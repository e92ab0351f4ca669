import Mathlib.Data.List.Nodup

/-!
# Items in places

A family of lists, one for each place, in which every item is at most once.
Items are taken out of one place and put into another.
-/

namespace Places

open Function

universe u v

variable {Place : Type u} {Item : Type v} [DecidableEq Place]

structure Apart (contents : Place → List Item) : Prop where
  nodup : ∀ place, (contents place).Nodup
  same : ∀ place other item, item ∈ contents place → item ∈ contents other → place = other

def Absent (contents : Place → List Item) (item : Item) : Prop :=
  ∀ place, item ∉ contents place

namespace Apart

variable {contents : Place → List Item}

theorem take (apart : Apart contents) (place : Place) {item : Item} {rest : List Item}
    (holds : (contents place).Perm (item :: rest)) :
    Apart (Function.update contents place rest) ∧
      Absent (Function.update contents place rest) item := by
  have distinct := List.nodup_cons.mp (holds.nodup_iff.mp (apart.nodup place))
  have before (other : Place) (found : Item)
      (member : found ∈ update contents place rest other) :
      found ∈ contents other := by
    by_cases here : other = place
    · subst here
      rw [update_self] at member
      exact holds.mem_iff.mpr (List.mem_cons_of_mem item member)
    · rwa [update_of_ne here] at member
  refine ⟨⟨fun other => ?_, fun first second found member member' => ?_⟩, fun other member => ?_⟩
  · by_cases here : other = place
    · rw [here, update_self]
      exact distinct.2
    · rw [update_of_ne here]
      exact apart.nodup other
  · exact apart.same first second found (before first found member) (before second found member')
  · by_cases here : other = place
    · rw [here, update_self] at member
      exact distinct.1 member
    · have taken : item ∈ contents place := holds.mem_iff.mpr List.mem_cons_self
      exact here (apart.same other place item (before other item member) taken)

theorem put (apart : Apart contents) {item : Item} (absent : Absent contents item)
    (place : Place) : Apart (Function.update contents place (item :: contents place)) := by
  have here (other : Place) (found : Item)
      (member : found ∈ update contents place (item :: contents place) other) :
      found = item ∧ other = place ∨ found ∈ contents other := by
    by_cases same : other = place
    · subst same
      rw [update_self, List.mem_cons] at member
      exact member.imp (fun same => ⟨same, rfl⟩) id
    · rw [update_of_ne same] at member
      exact Or.inr member
  refine ⟨fun other => ?_, fun first second found member member' => ?_⟩
  · by_cases same : other = place
    · rw [same, update_self]
      exact List.nodup_cons.mpr ⟨absent place, apart.nodup place⟩
    · rw [update_of_ne same]
      exact apart.nodup other
  · rcases here first found member with ⟨rfl, rfl⟩ | old
    · rcases here second found member' with ⟨-, rfl⟩ | old'
      · rfl
      · exact absurd old' (absent second)
    · rcases here second found member' with ⟨rfl, rfl⟩ | old'
      · exact absurd old (absent first)
      · exact apart.same first second found old old'

end Apart

end Places
