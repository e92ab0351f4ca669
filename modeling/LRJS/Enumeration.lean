import LRJS.Layout

/-!
# Enumeration order

`sort_property_enum_order` turns the chain of an object around, because new
properties are prepended to it, and moves the array indices to the front.  The
identities of properties are handed out in ascending order, so they tell which
of two properties is older.
-/

namespace LRJS

open List Option

def Descends (new old : Nat × LRString) : Prop :=
  old.1 ≤ new.1

instance : DecidableRel Descends :=
  fun new old => inferInstanceAs (Decidable (old.1 ≤ new.1))

theorem descends_orderedInsert {sorted : List (Nat × LRString)} (entry : Nat × LRString)
    (descending : sorted.Pairwise Descends) :
    (sorted.orderedInsert Descends entry).Pairwise Descends := by
  induction sorted with
  | nil => exact pairwise_singleton _ _
  | cons head tail ih =>
    have parts := pairwise_cons.mp descending
    rw [orderedInsert_cons]
    by_cases first : Descends entry head
    · rw [if_pos first]
      refine pairwise_cons.mpr ⟨fun other member => ?_, descending⟩
      rcases mem_cons.mp member with rfl | later
      · exact first
      · exact Nat.le_trans (parts.1 other later) first
    · rw [if_neg first]
      refine pairwise_cons.mpr ⟨fun other member => ?_, ih parts.2⟩
      rcases (mem_orderedInsert Descends).mp member with rfl | later
      · exact Nat.le_of_not_le first
      · exact parts.1 other later

theorem descends_foldl {entries sorted : List (Nat × LRString)}
    (descending : sorted.Pairwise Descends) :
    (entries.foldl (fun sorted entry => sorted.orderedInsert Descends entry) sorted).Pairwise
        Descends ∧
      (entries.foldl (fun sorted entry => sorted.orderedInsert Descends entry) sorted).Perm
        (sorted ++ entries) := by
  induction entries generalizing sorted with
  | nil => exact ⟨descending, by simp⟩
  | cons entry rest ih =>
    obtain ⟨ordered, perm⟩ := ih (descends_orderedInsert entry descending)
    refine ⟨ordered, perm.trans ?_⟩
    exact ((perm_orderedInsert Descends entry sorted).append_right rest).trans
      perm_middle.symm

def indexEntries (keys : List LRString) : List (Nat × LRString) :=
  keys.filterMap fun key => (prop_is_array_index key).map fun v => (v, key)

theorem mem_indexEntries {keys : List LRString} {entry : Nat × LRString}
    (member : entry ∈ indexEntries keys) :
    entry.2 ∈ keys ∧ prop_is_array_index entry.2 = some entry.1 := by
  simp only [indexEntries, mem_filterMap, map_eq_some_iff] at member
  obtain ⟨key, inside, v, index, rfl⟩ := member
  exact ⟨inside, index⟩

theorem map_indexEntries (keys : List LRString) :
    (indexEntries keys).map Prod.snd = keys.filter fun key => (prop_is_array_index key).isSome := by
  induction keys with
  | nil => rfl
  | cons key rest ih =>
    rw [indexEntries, filterMap_cons, filter_cons]
    cases index : prop_is_array_index key with
    | none | some v => simpa [indexEntries] using ih

/-- The sorted names are the indices in ascending order, then the others. -/
theorem sort_property_enum_order_parts {tab : List LRString} (several : 1 < tab.length) :
    ∃ descending : List (Nat × LRString), descending.Pairwise Descends ∧
      descending.Perm (indexEntries tab.reverse) ∧
      sort_property_enum_order tab = descending.reverse.map Prod.snd ++
        tab.reverse.filter fun key => (prop_is_array_index key).isNone := by
  have empty : ([] : List (Nat × LRString)).Pairwise Descends := .nil
  refine ⟨_, (descends_foldl empty).1, (descends_foldl empty).2, ?_⟩
  rw [sort_property_enum_order, if_neg (Nat.not_le.mpr several)]
  rfl

/-- Sorting the names neither adds nor drops one. -/
theorem sort_property_enum_order_perm (tab : List LRString) :
    (sort_property_enum_order tab).Perm tab := by
  by_cases several : 1 < tab.length
  · obtain ⟨descending, _, perm, same⟩ := sort_property_enum_order_parts several
    have front : (descending.reverse.map Prod.snd).Perm
        (tab.reverse.filter fun key => (prop_is_array_index key).isSome) := by
      rw [← map_indexEntries]
      exact (descending.reverse_perm.trans perm).map Prod.snd
    have back : (tab.reverse.filter fun key => (prop_is_array_index key).isNone) =
        tab.reverse.filter fun key => ! (prop_is_array_index key).isSome := by
      simp
    rw [same, back]
    exact ((front.append_right _).trans (filter_append_perm _ _)).trans tab.reverse_perm
  · rw [sort_property_enum_order, if_pos (Nat.not_lt.mp several)]

/-- Array indices ascend and precede the other keys, which stand in the order of insertion. -/
def LRObject.KeyBefore (o : LRObject) (first second : LRString) : Prop :=
  match prop_is_array_index first, prop_is_array_index second with
  | some i, some j => i ≤ j
  | some _, none => True
  | none, some _ => False
  | none, none => ∃ older newer, o.find_own_prop first = some older ∧
      o.find_own_prop second = some newer ∧ older.id < newer.id

structure LRObject.Chronological (o : LRObject) (next : Nat) : Prop where
  newestFirst : (o.prop_hash.map LRProperty.id).Pairwise (· > ·)
  below : ∀ id ∈ o.prop_hash.map LRProperty.id, id < next

namespace LRObject

variable {o : LRObject} {next : Nat}

theorem ownNames_perm (o : LRObject) : o.ownNames.Perm (o.prop_hash.map LRProperty.key) :=
  sort_property_enum_order_perm _

theorem mem_ownNames {key : LRString} : key ∈ o.ownNames ↔ (o.find_own_prop key).isSome := by
  rw [o.ownNames_perm.mem_iff, find_own_prop, List.find?_isSome, List.mem_map]
  simp

theorem insertionOrder (inv : o.WellFormed) (ordered : o.Chronological next) :
    (o.prop_hash.map LRProperty.key).reverse.Pairwise fun first second =>
      ∃ older newer, o.find_own_prop first = some older ∧
        o.find_own_prop second = some newer ∧ older.id < newer.id := by
  rw [pairwise_reverse, pairwise_map]
  have ids := pairwise_map.mp ordered.newestFirst
  refine ids.imp_of_mem ?_
  intro newer older newerMember olderMember descends
  exact ⟨older, newer, find_of_mem inv olderMember, find_of_mem inv newerMember, descends⟩

/-- The names are in the order of keys: indices ascending, then by age. -/
theorem ownNames_ordered (inv : o.WellFormed) (ordered : o.Chronological next) :
    o.ownNames.Pairwise o.KeyBefore := by
  by_cases several : 1 < (o.prop_hash.map LRProperty.key).length
  · obtain ⟨descending, sorted, perm, same⟩ := sort_property_enum_order_parts several
    have isEntry (entry : Nat × LRString) (member : entry ∈ descending) :
        prop_is_array_index entry.2 = some entry.1 :=
      (mem_indexEntries (perm.mem_iff.mp member)).2
    rw [ownNames, same, pairwise_append]
    refine ⟨?_, ?_, ?_⟩
    · rw [pairwise_map, pairwise_reverse]
      refine sorted.imp_of_mem ?_
      intro larger smaller largerMember smallerMember descends
      rw [KeyBefore, isEntry larger largerMember, isEntry smaller smallerMember]
      exact descends
    · refine ((insertionOrder inv ordered).filter _).imp_of_mem ?_
      intro first second firstMember secondMember before
      have noIndex {key : LRString} (member : key ∈ filter
          (fun key => (prop_is_array_index key).isNone)
          (o.prop_hash.map LRProperty.key).reverse) : prop_is_array_index key = none :=
        isNone_iff_eq_none.mp (mem_filter.mp member).2
      rw [KeyBefore, noIndex firstMember, noIndex secondMember]
      exact before
    · intro first firstMember second secondMember
      rw [List.mem_map] at firstMember
      obtain ⟨entry, member, rfl⟩ := firstMember
      have noIndex : prop_is_array_index second = none :=
        isNone_iff_eq_none.mp (mem_filter.mp secondMember).2
      rw [KeyBefore, isEntry entry (mem_reverse.mp member), noIndex]
      trivial
  · rw [ownNames, sort_property_enum_order, if_pos (Nat.not_lt.mp several)]
    cases keys : o.prop_hash.map LRProperty.key with
    | nil => exact .nil
    | cons key rest =>
      cases rest with
      | nil => exact pairwise_singleton _ _
      | cons other rest => simp [keys] at several

end LRObject

end LRJS
