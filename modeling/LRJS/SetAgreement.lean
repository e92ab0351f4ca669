import LRJS.MapAgreement
import LRJS.Sets

/-!
# Sets are finite sets

A Set is compared with a finite set of values up to SameValueZero.  The table
keeps every entry apart from the others; an insertion finds an entry only as
long as no deletion has left a free slot in front of it.
-/

namespace LRJS.Sets

open Finset LRSetData

open Maps (MapKey mapKey)

def contentsCall (heap : Maps.Heap) (this : Addr) (contents : Finset MapKey) :
    Call → LRValue × Finset MapKey
  | .add value _ => (.object this, insert (mapKey heap value) contents)
  | .has value => (.bool (mapKey heap value ∈ contents), contents)
  | .delete value =>
    (.bool (mapKey heap value ∈ contents), contents.erase (mapKey heap value))
  | .clear => (.undefined, ∅)

def contentsObservations (heap : Maps.Heap) (this : Addr) :
    Finset MapKey → List Call → List (Observation (Multiset MapKey))
  | _, [] => []
  | contents, now :: rest =>
    let (answer, contents) := contentsCall heap this contents now
    ⟨answer, contents.card, contents.val⟩ :: contentsObservations heap this contents rest

def Observation.keys (heap : Maps.Heap) (seen : Observation (List LRValue)) :
    Observation (Multiset MapKey) :=
  ⟨seen.answer, seen.size, seen.elements.map (mapKey heap)⟩

namespace LRSetData

variable (sd : LRSetData)

theorem capacity_pos : 0 < sd.capacity := by
  obtain ⟨k, same⟩ := sd.power
  rw [same]
  exact Nat.two_pow_pos k

theorem and_capacity (n : Nat) : n &&& (sd.capacity - 1) = n % sd.capacity := by
  obtain ⟨k, same⟩ := sd.power
  rw [same]
  exact Nat.and_two_pow_sub_one_eq_mod n k

theorem positions_eq_probe [NeZero sd.capacity] (hash : Nat) :
    sd.positions hash = (Probing.probe sd.capacity hash).map Fin.val := by
  rw [positions, and_capacity, Probing.probe, List.map_map]
  apply Probing.iterate_eq_map _ (capacity_pos sd)
  intro idx _
  exact and_capacity sd (idx + 1)

theorem positions_nodup (hash : Nat) : (sd.positions hash).Nodup := by
  have : NeZero sd.capacity := ⟨(capacity_pos sd).ne'⟩
  rw [positions_eq_probe]
  exact (Probing.probe_nodup hash).map Fin.val_injective

theorem positions_congr {sd : LRSetData} (sd' : LRSetData) (same : sd'.capacity = sd.capacity)
    (hash : Nat) : sd'.positions hash = sd.positions hash := by
  rw [positions, positions, same]

theorem mem_positions (hash idx : Nat) :
    idx ∈ sd.positions hash ↔ idx < sd.capacity := by
  have : NeZero sd.capacity := ⟨(capacity_pos sd).ne'⟩
  rw [positions_eq_probe, List.mem_map]
  constructor
  · rintro ⟨slot, -, rfl⟩
    exact slot.isLt
  · intro bound
    exact ⟨⟨idx, bound⟩, Probing.mem_probe hash _, rfl⟩

def taken (sd : LRSetData) : Finset Nat :=
  (Finset.range sd.capacity).filter fun i => (sd.entries i).alive = true

theorem mem_taken {sd : LRSetData} {i : Nat} :
    i ∈ sd.taken ↔ i < sd.capacity ∧ (sd.entries i).alive = true := by
  simp [taken]

end LRSetData

def keyAt (heap : Maps.Heap) (sd : LRSetData) (i : Nat) : MapKey :=
  mapKey heap (sd.entries i).value

def Recognises (heap : Maps.Heap) (sd : LRSetData) (value : LRValue) : Prop :=
  ∀ i < sd.capacity, (sd.entries i).alive = true →
    keyAt heap sd i = mapKey heap value → (sd.entries i).Holds heap value

def MetFirst (heap : Maps.Heap) (sd : LRSetData) (value : LRValue) : List Nat → Prop
  | [] => True
  | idx :: rest =>
    if (sd.entries idx).alive = true then
      (sd.entries idx).Holds heap value ∨ MetFirst heap sd value rest
    else
      ∀ i ∈ rest, (sd.entries i).alive = true → ¬(sd.entries i).Holds heap value

/-- A crowded table grows, or has the value; in another one, the value is not behind a free slot. -/
def Insertable (heap : Maps.Heap) (sd : LRSetData) (value : LRValue) (allocated : Bool) : Prop :=
  if Crowded sd then
    CanGrow sd allocated ∨ (set_find heap sd value).isSome
  else
    MetFirst heap sd value (sd.positions (set_hash_value heap value))

def Meets (heap : Maps.Heap) (sd : LRSetData) : Call → Prop
  | .add value allocated => Recognises heap sd value ∧ Insertable heap sd value allocated
  | .has value | .delete value => Recognises heap sd value
  | .clear => True

def AllMeet (heap : Maps.Heap) (this : Addr) : SetObject → List Call → Prop
  | _, [] => True
  | set, now :: rest =>
    Meets heap set.data now ∧
      match call heap this set now with
      | none => True
      | some after => AllMeet heap this after.2 rest

instance (heap : Maps.Heap) (sd : LRSetData) (value : LRValue) :
    Decidable (Recognises heap sd value) :=
  inferInstanceAs (Decidable (∀ i < sd.capacity, _ → _ → _))

instance decidableMetFirst (heap : Maps.Heap) (sd : LRSetData) (value : LRValue) :
    ∀ slots : List Nat, Decidable (MetFirst heap sd value slots)
  | [] => inferInstanceAs (Decidable True)
  | idx :: rest =>
    have := decidableMetFirst heap sd value rest
    inferInstanceAs (Decidable (if (sd.entries idx).alive = true then _ else _))

instance (heap : Maps.Heap) (sd : LRSetData) (value : LRValue) (allocated : Bool) :
    Decidable (Insertable heap sd value allocated) :=
  inferInstanceAs (Decidable (if Crowded sd then _ else _))

instance (heap : Maps.Heap) (sd : LRSetData) (now : Call) : Decidable (Meets heap sd now) := by
  cases now <;> unfold Meets <;> infer_instance

instance decidableAllMeet (heap : Maps.Heap) (this : Addr) :
    ∀ (set : SetObject) (calls : List Call), Decidable (AllMeet heap this set calls)
  | _, [] => inferInstanceAs (Decidable True)
  | set, now :: rest => by
      unfold AllMeet
      cases call heap this set now with
      | none => exact inferInstanceAs (Decidable (_ ∧ True))
      | some after =>
        have later := decidableAllMeet heap this after.2 rest
        exact inferInstanceAs (Decidable (_ ∧ AllMeet heap this after.2 rest))

structure Represents (heap : Maps.Heap) (sd : LRSetData) (contents : Finset MapKey) : Prop where
  hashed : ∀ i ∈ sd.taken, (sd.entries i).hash = set_hash_value heap (sd.entries i).value
  apart : Set.InjOn (keyAt heap sd) sd.taken
  counted : sd.count = sd.taken.card
  room : 4 * sd.count ≤ 3 * sd.capacity
  held : sd.taken.image (keyAt heap sd) = contents

namespace Represents

variable {heap : Maps.Heap} {sd : LRSetData} {contents : Finset MapKey}

section

variable (represents : Represents heap sd contents)
include represents

theorem card : contents.card = sd.count := by
  rw [← represents.held, card_image_of_injOn represents.apart, represents.counted]

theorem keys_elements :
    (((elements sd).map (mapKey heap) : List MapKey) : Multiset MapKey) = contents.val := by
  have slots : (((List.range sd.capacity).filter fun i => (sd.entries i).alive : List Nat) :
      Multiset Nat) = sd.taken.val := by
    simp [taken, Multiset.range]
  rw [← represents.held, image_val_of_injOn represents.apart, ← slots, elements,
    List.map_map, Multiset.map_coe]
  rfl

theorem mem_iff {key : MapKey} : key ∈ contents ↔ ∃ i ∈ sd.taken, keyAt heap sd i = key := by
  rw [← represents.held, mem_image]

theorem exists_dead (hash : Nat) : ∃ i ∈ sd.positions hash, (sd.entries i).alive = false := by
  by_contra full
  have all : sd.taken = range sd.capacity := by
    ext i
    rw [mem_taken, mem_range, and_iff_left_iff_imp]
    intro bound
    by_contra dead
    exact full ⟨i, (sd.mem_positions hash i).mpr bound, Bool.eq_false_iff.mpr dead⟩
  have counted := represents.counted
  have room := represents.room
  have positive := sd.capacity_pos
  rw [all, card_range] at counted
  omega

end

theorem of_dead (dead : ∀ i, (sd.entries i).alive = false) (count : sd.count = 0) :
    Represents heap sd ∅ := by
  have nothing : sd.taken = ∅ := by
    simp [taken, dead]
  constructor <;> simp [nothing, count]

section

variable (represents : Represents heap sd contents)
include represents

/-- Filling a dead entry of the probe sequence adds the value. -/
theorem fill {idx : Nat} {value : LRValue}
    (bound : idx < sd.capacity) (dead : (sd.entries idx).alive = false)
    (absent : mapKey heap value ∉ contents) (room : 4 * (sd.count + 1) ≤ 3 * sd.capacity) :
    Represents heap
      { sd.store idx ⟨value, set_hash_value heap value, true⟩ with count := sd.count + 1 }
      (insert (mapKey heap value) contents) := by
  have free : idx ∉ sd.taken := by
    intro taken
    rw [(mem_taken.mp taken).2] at dead
    cases dead
  generalize grown : { sd.store idx ⟨value, set_hash_value heap value, true⟩ with
    count := sd.count + 1 } = sd'
  have here : sd'.entries idx = ⟨value, set_hash_value heap value, true⟩ := by
    rw [← grown]
    exact Function.update_self ..
  have there : ∀ i ∈ sd.taken, sd'.entries i = sd.entries i := by
    intro i taken
    have other : i ≠ idx := by
      rintro rfl
      exact free taken
    rw [← grown]
    exact Function.update_of_ne other ..
  have slots : sd'.taken = insert idx sd.taken := by
    ext i
    rw [mem_taken, mem_insert, mem_taken, ← grown]
    by_cases same : i = idx
    · simp [same, bound, store]
    · simp [same, store]
  have keyHere : keyAt heap sd' idx = mapKey heap value := by
    rw [keyAt, here]
  have keyThere : ∀ i ∈ sd.taken, keyAt heap sd' i = keyAt heap sd i := by
    intro i taken
    rw [keyAt, there i taken, keyAt]
  have image : sd.taken.image (keyAt heap sd') = contents := by
    rw [← represents.held]
    exact image_congr keyThere
  constructor
  · intro i taken
    rw [slots, mem_insert] at taken
    cases taken with
    | inl same => rw [same, here]
    | inr old =>
      rw [there i old]
      exact represents.hashed i old
  · rw [slots, coe_insert, Set.injOn_insert free, keyHere]
    constructor
    · exact represents.apart.congr fun i taken => (keyThere i taken).symm
    · rw [← coe_image, image]
      exact absent
  · rw [slots, card_insert_of_notMem free, ← represents.counted, ← grown]
  · rw [← grown]
    exact room
  · rw [slots, image_insert, keyHere, image]

/-- A deleted entry removes its value. -/
theorem remove {idx : Nat} (taken : idx ∈ sd.taken) :
    Represents heap
      { sd.store idx (sd.entries idx).deleted with count := sd.count - 1 }
      (contents.erase (keyAt heap sd idx)) := by
  generalize shrunk : { sd.store idx (sd.entries idx).deleted with
    count := sd.count - 1 } = sd'
  have slots : sd'.taken = sd.taken.erase idx := by
    ext i
    rw [mem_taken, mem_erase, mem_taken, ← shrunk]
    by_cases same : i = idx
    · simp [same, store, LRSetEntry.deleted]
    · simp [same, store]
  have kept : ∀ i ∈ sd.taken.erase idx, sd'.entries i = sd.entries i := by
    intro i member
    rw [← shrunk]
    exact Function.update_of_ne (mem_erase.mp member).1 ..
  have keys : ∀ i ∈ sd.taken.erase idx, keyAt heap sd' i = keyAt heap sd i := by
    intro i member
    rw [keyAt, kept i member, keyAt]
  have fewer : sd.taken.erase idx ⊆ sd.taken := erase_subset _ _
  constructor
  · intro i member
    rw [slots] at member
    rw [kept i member]
    exact represents.hashed i (fewer member)
  · rw [slots]
    exact (represents.apart.mono (coe_subset.mpr fewer)).congr
      fun i member => (keys i member).symm
  · rw [slots, card_erase_of_mem taken, ← represents.counted, ← shrunk]
  · rw [← shrunk]
    exact Nat.le_trans (Nat.mul_le_mul_left 4 (Nat.sub_le _ _)) represents.room
  · rw [slots, image_congr keys, ← represents.held]
    ext key
    rw [mem_image, mem_erase, mem_image]
    constructor
    · rintro ⟨i, member, same⟩
      obtain ⟨other, old⟩ := mem_erase.mp member
      refine ⟨fun gone => other (represents.apart old taken (same.trans gone)), i, old, same⟩
    · rintro ⟨other, i, old, same⟩
      refine ⟨i, mem_erase.mpr ⟨?_, old⟩, same⟩
      rintro rfl
      exact other same.symm

theorem find {value : LRValue} (recognised : Recognises heap sd value) :
    (set_find heap sd value).isSome ↔ mapKey heap value ∈ contents := by
  unfold set_find
  rw [List.find?_isSome, represents.mem_iff]
  constructor
  · rintro ⟨i, member, found⟩
    have bound := (sd.mem_positions _ i).mp member
    rw [Bool.and_eq_true, decide_eq_true_eq] at found
    exact ⟨i, mem_taken.mpr ⟨bound, found.1⟩, Maps.mapKey_eq found.2.2⟩
  · rintro ⟨i, taken, same⟩
    obtain ⟨bound, alive⟩ := mem_taken.mp taken
    refine ⟨i, (sd.mem_positions _ i).mpr bound, ?_⟩
    rw [Bool.and_eq_true, decide_eq_true_eq]
    exact ⟨alive, recognised i bound alive same⟩

end

end Represents

section Adding

variable {heap : Maps.Heap} {sd : LRSetData} {contents : Finset MapKey} {value : LRValue}

/-- `add` finds the value, or fills the first dead entry. -/
theorem addFrom_cases {slots : List Nat} (met : MetFirst heap sd value slots)
    (dead : ∃ i ∈ slots, (sd.entries i).alive = false) :
    (addFrom heap sd value slots = some sd ∧
        ∃ i ∈ slots, (sd.entries i).alive = true ∧ (sd.entries i).Holds heap value) ∨
      ∃ idx ∈ slots, (sd.entries idx).alive = false ∧
        slots.find? (fun i => !(sd.entries i).alive) = some idx ∧
        addFrom heap sd value slots = some
          { sd.store idx ⟨value, set_hash_value heap value, true⟩ with count := sd.count + 1 } ∧
        ∀ i ∈ slots, (sd.entries i).alive = true → ¬(sd.entries i).Holds heap value := by
  induction slots with
  | nil =>
    obtain ⟨i, impossible, _⟩ := dead
    exact absurd impossible List.not_mem_nil
  | cons head rest ih =>
    unfold MetFirst at met
    unfold addFrom
    by_cases alive : (sd.entries head).alive = true
    · rw [if_pos alive] at met
      rw [if_neg (by rw [alive]; exact Bool.noConfusion)]
      by_cases holds : (sd.entries head).Holds heap value
      · rw [if_pos holds]
        exact Or.inl ⟨rfl, head, List.mem_cons_self, alive, holds⟩
      · rw [if_neg holds]
        have deadLater : ∃ i ∈ rest, (sd.entries i).alive = false := by
          obtain ⟨i, member, dead⟩ := dead
          cases List.mem_cons.mp member with
          | inl same =>
            rw [same, alive] at dead
            cases dead
          | inr later => exact ⟨i, later, dead⟩
        cases ih (met.resolve_left holds) deadLater with
        | inl found =>
          obtain ⟨same, i, member, entry⟩ := found
          exact Or.inl ⟨same, i, List.mem_cons_of_mem _ member, entry⟩
        | inr filled =>
          obtain ⟨idx, member, dead, first, same, absent⟩ := filled
          refine Or.inr ⟨idx, List.mem_cons_of_mem _ member, dead, ?_, same, ?_⟩
          · rw [List.find?_cons, alive]
            exact first
          intro i member alive
          cases List.mem_cons.mp member with
          | inl same => exact same ▸ holds
          | inr later => exact absent i later alive
    · rw [if_neg alive] at met
      rw [if_pos (Bool.eq_false_iff.mpr alive)]
      have dead := Bool.eq_false_iff.mpr alive
      refine Or.inr ⟨head, List.mem_cons_self, dead,
        by rw [List.find?_cons, dead]; rfl, rfl, ?_⟩
      intro i member alive'
      cases List.mem_cons.mp member with
      | inl same => exact absurd (same ▸ alive') alive
      | inr later => exact met i later alive'

theorem addFrom_represents (represents : Represents heap sd contents)
    (recognised : Recognises heap sd value)
    (met : MetFirst heap sd value (sd.positions (set_hash_value heap value))) (room : ¬Crowded sd) :
    ∃ sd', addFrom heap sd value (sd.positions (set_hash_value heap value)) = some sd' ∧
      Represents heap sd' (insert (mapKey heap value) contents) := by
  cases addFrom_cases met (represents.exists_dead _) with
  | inl found =>
    obtain ⟨same, i, member, alive, holds⟩ := found
    have present : mapKey heap value ∈ contents := by
      rw [represents.mem_iff]
      exact ⟨i, mem_taken.mpr ⟨(sd.mem_positions _ i).mp member, alive⟩,
        Maps.mapKey_eq holds.2⟩
    refine ⟨sd, same, ?_⟩
    rw [insert_eq_of_mem present]
    exact represents
  | inr filled =>
    obtain ⟨idx, member, dead, _, same, missed⟩ := filled
    have absent : mapKey heap value ∉ contents := by
      rw [represents.mem_iff]
      rintro ⟨i, taken, key⟩
      obtain ⟨bound, alive⟩ := mem_taken.mp taken
      exact missed i ((sd.mem_positions _ i).mpr bound) alive (recognised i bound alive key)
    exact ⟨_, same, represents.fill ((sd.mem_positions _ idx).mp member) dead absent
      (Nat.not_lt.mp room)⟩

def Reachable (sd : LRSetData) : Prop :=
  ∀ i ∈ sd.taken, ∀ before after, sd.positions (sd.entries i).hash = before ++ i :: after →
    ∀ j ∈ before, (sd.entries j).alive = true

/-- In a reachable table no entry of the value stands behind a dead one. -/
theorem Reachable.metFirst (reachable : Reachable sd) (value : LRValue) :
    MetFirst heap sd value (sd.positions (set_hash_value heap value)) := by
  have alive : ∀ before i after,
      sd.positions (set_hash_value heap value) = before ++ i :: after →
      (sd.entries i).alive = true → (sd.entries i).Holds heap value →
      ∀ j ∈ before, (sd.entries j).alive = true := by
    intro before i after split alive holds
    have bound : i < sd.capacity := by
      rw [← sd.mem_positions, split]
      exact List.mem_append_right before List.mem_cons_self
    apply reachable i (mem_taken.mpr ⟨bound, alive⟩) before after
    rw [holds.1, split]
  generalize sd.positions (set_hash_value heap value) = slots at alive
  induction slots with
  | nil => trivial
  | cons head rest ih =>
    unfold MetFirst
    split
    · next here =>
        right
        apply ih
        intro before i after split entry holds j member
        exact alive (head :: before) i after (by rw [split]; rfl) entry holds j
          (List.mem_cons_of_mem head member)
    · next here =>
        intro i member entry holds
        obtain ⟨before, after, split⟩ := List.append_of_mem member
        exact here (alive (head :: before) i after (by rw [split]; rfl) entry holds head
          List.mem_cons_self)

/-- What the new table holds once the slots `copied` are done. -/
structure Copied (heap : Maps.Heap) (sd : LRSetData) (copied : Finset Nat)
    (grown : LRSetData) : Prop where
  subset : copied ⊆ sd.taken
  represents : Represents heap grown (copied.image (keyAt heap sd))
  capacity : grown.capacity = sd.capacity * 2
  origin : ∀ i ∈ grown.taken, ∃ j ∈ sd.taken, grown.entries i = sd.entries j
  reachable : Reachable grown

theorem copied_doubled (heap : Maps.Heap) (sd : LRSetData) : Copied heap sd ∅ (doubled sd) := by
  have nothing : (doubled sd).taken = ∅ := by
    simp [taken, doubled, LRSetEntry.zero]
  constructor
  · exact empty_subset _
  · rw [image_empty]
    exact .of_dead (fun _ => rfl) rfl
  · rfl
  · intro i taken
    rw [nothing] at taken
    exact absurd taken (notMem_empty i)
  · intro i taken
    rw [nothing] at taken
    exact absurd taken (notMem_empty i)

/-- Rehashing one more entry copies one more value. -/
theorem Copied.step {copied : Finset Nat} {grown : LRSetData} (copies : Copied heap sd copied grown)
    (represents : Represents heap sd contents) {i : Nat} (taken : i ∈ sd.taken) (new : i ∉ copied) :
    ∃ next, rehash grown (sd.entries i) = some next ∧
      Copied heap sd (insert i copied) next := by
  have entry : sd.entries i =
      ⟨(sd.entries i).value, set_hash_value heap (sd.entries i).value, true⟩ := by
    rw [← represents.hashed i taken, ← (mem_taken.mp taken).2]
  have absent : keyAt heap sd i ∉ copied.image (keyAt heap sd) := by
    rw [mem_image]
    rintro ⟨j, member, same⟩
    rw [represents.apart (copies.subset member) taken same] at member
    exact new member
  have room : 4 * (grown.count + 1) ≤ 3 * grown.capacity := by
    have few : (insert i copied).card ≤ sd.taken.card :=
      card_le_card (insert_subset taken copies.subset)
    have size := copies.represents.card
    rw [card_image_of_injOn (represents.apart.mono (coe_subset.mpr copies.subset))]
      at size
    rw [card_insert_of_notMem new, ← represents.counted] at few
    rw [copies.capacity]
    have bound := represents.room
    omega
  obtain ⟨free, member, dead⟩ := copies.represents.exists_dead (sd.entries i).hash
  have found : ((grown.positions (sd.entries i).hash).find? fun idx =>
      !(grown.entries idx).alive).isSome := by
    rw [List.find?_isSome]
    exact ⟨free, member, by rw [dead]; rfl⟩
  obtain ⟨idx, first⟩ := Option.isSome_iff_exists.mp found
  obtain ⟨here, before, after, split, passed⟩ := List.find?_eq_some_iff_append.mp first
  have bound : idx < grown.capacity :=
    (grown.mem_positions _ idx).mp (List.mem_of_find?_eq_some first)
  have isDead : (grown.entries idx).alive = false := by
    rwa [Bool.not_eq_true'] at here
  have filled := copies.represents.fill bound isDead absent room
  rw [← entry] at filled
  refine ⟨{ grown.store idx (sd.entries i) with count := grown.count + 1 }, ?_, ?_⟩
  · rw [rehash, first]
    rfl
  generalize stored : { grown.store idx (sd.entries i) with count := grown.count + 1 } = next
    at filled ⊢
  have there : ∀ j, j ≠ idx → next.entries j = grown.entries j := by
    intro j other
    rw [← stored]
    exact Function.update_of_ne other ..
  have here : next.entries idx = sd.entries i := by
    rw [← stored]
    exact Function.update_self ..
  have capacity : next.capacity = grown.capacity := by
    rw [← stored]
    rfl
  have kept : ∀ j ∈ next.taken, j ≠ idx → j ∈ grown.taken := by
    intro j member other
    rw [mem_taken, there j other, capacity] at member
    exact mem_taken.mpr member
  constructor
  · exact insert_subset taken copies.subset
  · rw [image_insert]
    exact filled
  · exact capacity.trans copies.capacity
  · intro j member
    by_cases same : j = idx
    · exact ⟨i, taken, same ▸ here⟩
    · obtain ⟨origin, member, copy⟩ := copies.origin j (kept j member same)
      exact ⟨origin, member, (there j same).trans copy⟩
  · intro j member before' after' split' k earlier
    rw [positions_congr next capacity] at split'
    by_cases filledHere : k = idx
    · rw [filledHere, here]
      exact (mem_taken.mp taken).2
    rw [there k filledHere]
    by_cases same : j = idx
    · rw [same, here] at split'
      have front := passed k (Probing.split_unique (grown.positions_nodup _) split' split ▸ earlier)
      rwa [Bool.not_not] at front
    · rw [there j same] at split'
      exact copies.reachable j (kept j member same) before' after' split' k earlier

section

variable (represents : Represents heap sd contents)
include represents

/-- Rehashing all entries copies all values. -/
theorem rehashAll_copied {rest : List Nat}
    (bound : ∀ i ∈ rest, i < sd.capacity) (nodup : rest.Nodup) {copied : Finset Nat}
    {grown : LRSetData} (copies : Copied heap sd copied grown) (apart : ∀ i ∈ rest, i ∉ copied) :
    ∃ all done, rehashAll sd rest grown = some done ∧ Copied heap sd all done ∧ copied ⊆ all ∧
      ∀ i ∈ rest, (sd.entries i).alive = true → i ∈ all := by
  induction rest generalizing copied grown with
  | nil =>
    exact ⟨copied, grown, rfl, copies, Finset.Subset.refl _,
      fun i impossible => absurd impossible List.not_mem_nil⟩
  | cons head rest ih =>
    have boundRest : ∀ i ∈ rest, i < sd.capacity :=
      fun i member => bound i (List.mem_cons_of_mem _ member)
    have once := List.nodup_cons.mp nodup
    unfold rehashAll
    split
    · next alive =>
        have taken : head ∈ sd.taken :=
          mem_taken.mpr ⟨bound head List.mem_cons_self, alive⟩
        obtain ⟨next, put, copies'⟩ :=
          copies.step represents taken (apart head List.mem_cons_self)
        have apart' : ∀ i ∈ rest, i ∉ insert head copied := by
          intro i member inserted
          cases mem_insert.mp inserted with
          | inl same => exact once.1 (same ▸ member)
          | inr old => exact apart i (List.mem_cons_of_mem _ member) old
        obtain ⟨all, done, run, final, subset, whole⟩ :=
          ih boundRest once.2 copies' apart'
        refine ⟨all, done, ?_, final, (subset_insert head copied).trans subset, ?_⟩
        · rw [put]
          exact run
        · intro i member alive
          cases List.mem_cons.mp member with
          | inl same => exact subset (same ▸ mem_insert_self head copied)
          | inr later => exact whole i later alive
    · next dead =>
        obtain ⟨all, done, run, final, subset, whole⟩ := ih boundRest once.2
          copies fun i member => apart i (List.mem_cons_of_mem _ member)
        refine ⟨all, done, run, final, subset, ?_⟩
        intro i member alive
        cases List.mem_cons.mp member with
        | inl same => exact absurd (same ▸ alive) dead
        | inr later => exact whole i later alive

/-- A resized table has the same contents, and room. -/
theorem resize :
    ∃ grown, rehashAll sd (List.range sd.capacity) (doubled sd) = some grown ∧
      Represents heap grown contents ∧ ¬Crowded grown ∧ Reachable grown ∧
      ∀ value, Recognises heap sd value → Recognises heap grown value := by
  obtain ⟨all, grown, run, copies, _, whole⟩ := rehashAll_copied represents
    (fun i member => List.mem_range.mp member) List.nodup_range (copied_doubled heap sd)
    fun i _ => notMem_empty i
  have same : all = sd.taken := by
    apply Finset.Subset.antisymm copies.subset
    intro i taken
    obtain ⟨bound, alive⟩ := mem_taken.mp taken
    exact whole i (List.mem_range.mpr bound) alive
  have kept := copies.represents
  rw [same, represents.held] at kept
  refine ⟨grown, run, kept, ?_, copies.reachable, ?_⟩
  · have size := kept.card.symm.trans represents.card
    have room := represents.room
    have positive := sd.capacity_pos
    unfold Crowded
    rw [size, copies.capacity]
    omega
  · intro value recognised i bound alive same
    obtain ⟨j, taken, copy⟩ := copies.origin i (mem_taken.mpr ⟨bound, alive⟩)
    obtain ⟨bound', alive'⟩ := mem_taken.mp taken
    rw [keyAt, copy] at same
    rw [copy]
    exact recognised j bound' alive' same

theorem add_represents (recognised : Recognises heap sd value) {allocated : Bool}
    (insertable : Insertable heap sd value allocated) :
    ∃ sd', set_data_add heap sd value allocated = some sd' ∧
      Represents heap sd' (insert (mapKey heap value) contents) := by
  unfold Insertable at insertable
  unfold set_data_add
  split
  · next crowded =>
      rw [if_pos crowded] at insertable
      split
      · next grows =>
          obtain ⟨grown, run, kept, room, reachable, known⟩ := resize represents
          rw [run]
          exact addFrom_represents kept (known value recognised) (reachable.metFirst value) room
      · next full =>
          have present := (represents.find recognised).mp (insertable.resolve_left full)
          refine ⟨sd, rfl, ?_⟩
          rw [insert_eq_of_mem present]
          exact represents
  · next room =>
      rw [if_neg room] at insertable
      exact addFrom_represents represents recognised insertable room

end

end Adding

def SetRepresents (heap : Maps.Heap) (set : SetObject) (contents : Finset MapKey) : Prop :=
  Represents heap set.data contents ∧ set.size = set.data.count

theorem represents_new (heap : Maps.Heap) : SetRepresents heap js_set_constructor ∅ :=
  ⟨.of_dead (fun _ => rfl) rfl, rfl⟩

section Calls

variable {heap : Maps.Heap} {set : SetObject} {contents : Finset MapKey}

/-- A call that meets the condition answers and changes what the contents say. -/
theorem call_represents (this : Addr) (represents : SetRepresents heap set contents) {now : Call}
    (meets : Meets heap set.data now) :
    ∃ after, call heap this set now = some after ∧
      after.1 = (contentsCall heap this contents now).1 ∧
      SetRepresents heap after.2 (contentsCall heap this contents now).2 := by
  cases now with
  | add value allocated =>
    obtain ⟨sd, run, kept⟩ := add_represents represents.1 meets.1 meets.2
    exact ⟨_, by rw [call, js_set_add, run]; rfl, rfl, kept, rfl⟩
  | has value =>
    refine ⟨_, rfl, ?_, represents⟩
    rw [js_set_has, contentsCall, Bool.eq_iff_iff.mpr ((represents.1.find meets).trans
      decide_eq_true_iff.symm)]
  | delete value =>
    have searched := represents.1.find meets
    refine ⟨_, rfl, ?_⟩
    unfold js_set_delete contentsCall
    dsimp only
    cases found : set_find heap set.data value with
    | none =>
      rw [found] at searched
      have absent : mapKey heap value ∉ contents := fun present => by
        cases searched.mpr present
      rw [erase_eq_of_notMem absent, decide_eq_false absent]
      exact ⟨rfl, represents⟩
    | some idx =>
      rw [found] at searched
      have present := searched.mp rfl
      rw [decide_eq_true present]
      have here := List.find?_some found
      rw [Bool.and_eq_true, decide_eq_true_eq] at here
      have taken : idx ∈ set.data.taken := mem_taken.mpr
        ⟨(set.data.mem_positions _ idx).mp (List.mem_of_find?_eq_some found), here.1⟩
      have removed := represents.1.remove taken
      rw [keyAt, Maps.mapKey_eq here.2.2] at removed
      exact ⟨rfl, removed, rfl⟩
  | clear =>
    refine ⟨_, rfl, rfl, .of_dead ?_ rfl, rfl⟩
    intro i
    change (if (set.data.entries i).alive then (set.data.entries i).deleted
      else set.data.entries i).alive = false
    split
    · rfl
    · next dead => exact Bool.eq_false_iff.mpr dead

theorem observations_represents (this : Addr) (represents : SetRepresents heap set contents)
    {calls : List Call} (meets : AllMeet heap this set calls) :
    ∃ seen, observations heap this set calls = some seen ∧
      seen.map (Observation.keys heap) = contentsObservations heap this contents calls := by
  induction calls generalizing set contents with
  | nil => exact ⟨[], rfl, rfl⟩
  | cons now rest ih =>
    obtain ⟨after, run, answer, kept⟩ := call_represents this represents meets.1
    have later := meets.2
    rw [run] at later
    obtain ⟨seen, observed, same⟩ := ih kept later
    refine ⟨⟨after.1, after.2.size, elements after.2.data⟩ :: seen, ?_, ?_⟩
    · rw [observations, run]
      change (observations heap this after.2 rest).bind _ = _
      rw [observed]
      rfl
    · rw [List.map_cons, same, contentsObservations, Observation.keys, kept.1.keys_elements,
        answer, kept.2, ← kept.1.card]

end Calls

/-- A Set answers as a finite set up to SameValueZero, has its size and its elements once each, and
no call is endless, as long as every call meets its condition. -/
theorem set_refines (heap : Maps.Heap) (this : Addr) (calls : List Call)
    (meets : AllMeet heap this js_set_constructor calls) :
    ∃ seen, observations heap this js_set_constructor calls = some seen ∧
      seen.map (Observation.keys heap) = contentsObservations heap this ∅ calls :=
  observations_represents this (represents_new heap) meets

/-- Values of many kinds are added, deleted and added again, in a table that grows. -/
theorem set_refines_mixed :
    let calls : List Call :=
      (List.range 14).map (fun i => .add (.int32 i) true) ++
        [.add (.float64 .nan) true, .add (.object 64) true, .add (.float64 .nan) true,
          .delete (.int32 1), .has (.int32 1), .add (.int32 1) true, .clear, .has (.object 64)]
    ∃ seen, observations Maps.oneBigint 1 js_set_constructor calls = some seen ∧
      seen.map (Observation.keys Maps.oneBigint) =
        contentsObservations Maps.oneBigint 1 ∅ calls :=
  set_refines Maps.oneBigint 1 _ (by decide +kernel)

def sizes (calls : List Call) : Option (List Nat) :=
  (observations Maps.oneBigint 1 js_set_constructor calls).map fun seen =>
    seen.map Observation.size

/-- The numbers 0 and 16 share their slots: once 0 is deleted, 16 is added a second time.  The
two zeros are two values. -/
theorem set_stores_twice :
    let again : List Call := [.add (.int32 0) true, .add (.int32 16) true, .delete (.int32 0),
      .add (.int32 16) true]
    let zeros : List Call := [.add (.int32 0) true, .add (.float64 .negZero) true]
    sizes again ≠ some ((contentsObservations Maps.oneBigint 1 ∅ again).map Observation.size) ∧
      sizes zeros ≠
        some ((contentsObservations Maps.oneBigint 1 ∅ zeros).map Observation.size) := by
  decide +kernel

end LRJS.Sets
