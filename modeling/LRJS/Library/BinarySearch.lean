import Mathlib.Data.List.Basic

/-!
# Binary search

A search that halves a list, given how its key compares with each item.  It
finds only items that are equal to the key, and finds one if there is one and
the list is sorted.
-/

namespace BinarySearch

open List Option

universe u

variable {α : Type u}

def go (order : α → Ordering) : Nat → List α → Option α
  | 0, _ => none
  | fuel + 1, items =>
    match items.drop (items.length / 2) with
    | [] => none
    | item :: later =>
      match order item with
      | .lt => go order fuel (items.take (items.length / 2))
      | .gt => go order fuel later
      | .eq => some item

/-- `order` compares the key with an item. -/
def search (order : α → Ordering) (items : List α) : Option α :=
  go order items.length items

def Sorted (order : α → Ordering) (items : List α) : Prop :=
  items.Pairwise fun first second =>
    (order second = .gt → order first = .gt) ∧ (order first = .lt → order second = .lt)

variable {order : α → Ordering} {fuel : Nat} {items : List α}

/-- What the search finds is an item that compares equal. -/
theorem go_sound {found : α} (finds : go order fuel items = some found) :
    found ∈ items ∧ order found = .eq := by
  induction fuel generalizing items with
  | zero => cases finds
  | succ fuel ih =>
    rw [go] at finds
    split at finds
    · cases finds
    · rename_i item later halves
      have member : ∀ other ∈ item :: later, other ∈ items := fun other inside =>
        mem_of_mem_drop (halves ▸ inside)
      split at finds
      · obtain ⟨inside, equal⟩ := ih finds
        exact ⟨mem_of_mem_take inside, equal⟩
      · obtain ⟨inside, equal⟩ := ih finds
        exact ⟨member found (mem_cons_of_mem item inside), equal⟩
      · rename_i equal
        cases finds
        exact ⟨member found mem_cons_self, equal⟩

/-- In a sorted list the search finds an equal item, by induction on the fuel. -/
theorem go_complete (sorted : Sorted order items) (enough : items.length ≤ fuel) {item : α}
    (member : item ∈ items) (equal : order item = .eq) : (go order fuel items).isSome = true := by
  induction fuel generalizing items with
  | zero => rw [length_eq_zero_iff.mp (Nat.le_zero.mp enough)] at member; cases member
  | succ fuel ih =>
    have split_items : items = items.take (items.length / 2) ++ items.drop (items.length / 2) :=
      (take_append_drop ..).symm
    have nonempty : 0 < items.length := length_pos_of_mem member
    rw [go]
    split
    · rename_i empty
      have short := drop_eq_nil_iff.mp empty
      omega
    · rename_i middle later halves
      rw [halves] at split_items
      have length : items.length = items.length / 2 + (later.length + 1) := by
        have sum := congrArg length split_items
        rw [length_append, length_take, length_cons] at sum
        omega
      have sorted' := sorted
      rw [Sorted, split_items, pairwise_append, pairwise_cons] at sorted'
      obtain ⟨front, ⟨behind, back⟩, across⟩ := sorted'
      have where_item : item ∈ items.take (items.length / 2) ++ middle :: later :=
        split_items ▸ member
      split
      · rename_i before
        refine ih front ?_ ?_
        · rw [length_take]
          omega
        · cases mem_append.mp where_item with
          | inl inside => exact inside
          | inr inside =>
            cases mem_cons.mp inside with
            | inl same => rw [same, before] at equal; cases equal
            | inr after =>
              have smaller := (behind item after).2 before
              rw [smaller] at equal
              cases equal
      · rename_i after
        refine ih back (by omega) ?_
        cases mem_append.mp where_item with
        | inl inside =>
          have larger := (across item inside middle mem_cons_self).1 after
          rw [larger] at equal
          cases equal
        | inr inside =>
          cases mem_cons.mp inside with
          | inl same => rw [same, after] at equal; cases equal
          | inr later => exact later
      · rfl

/-- In a sorted list the search succeeds exactly if an equal item is there. -/
theorem search_isSome_iff (sorted : Sorted order items) :
    (search order items).isSome = true ↔ ∃ item ∈ items, order item = .eq := by
  constructor
  · intro finds
    obtain ⟨found, finds⟩ := isSome_iff_exists.mp finds
    obtain ⟨member, equal⟩ := go_sound finds
    exact ⟨found, member, equal⟩
  · intro there
    obtain ⟨item, member, equal⟩ := there
    exact go_complete sorted (Nat.le_refl _) member equal

theorem sorted_of_pairwise [Ord α] [Std.TransOrd α] (key : α)
    (ascending : items.Pairwise fun first second => (compare first second).isLE = true) :
    Sorted (compare key) items := by
  refine ascending.imp fun {first second} least => ⟨fun after => ?_, fun before => ?_⟩
  · have larger := Std.OrientedCmp.gt_iff_lt.mp after
    exact Std.OrientedCmp.gt_iff_lt.mpr (Std.TransCmp.lt_of_isLE_of_lt least larger)
  · exact Std.TransCmp.lt_of_lt_of_isLE before least

end BinarySearch
