import LRJS.PropertyWrites

/-!
# The layout of objects

What the own part of an object looks like between operations: keys occur once
in the chain, recorded slots lie inside `props` and belong to one key each.
Each primitive of `Objects` keeps this, and has one lemma for each view of the
object: the property of a key and the slot of a key.
-/

namespace LRJS

open List Option

namespace LRObject

variable {o : LRObject} {key other : LRString}

structure WellFormed (o : LRObject) : Prop where
  keys : (o.prop_hash.map LRProperty.key).Nodup
  inside : ∀ {key slot}, o.shape_get_slot key = some slot → slot < o.props.length
  injective : ∀ {key other slot}, o.shape_get_slot key = some slot →
    o.shape_get_slot other = some slot → key = other
  counted : o.flat.count ≤ o.props.length

theorem shape_get_slot_eq_flat (o : LRObject) (key : LRString) :
    o.shape_get_slot key = o.flat.find key := by
  unfold shape_get_slot flat
  cases o.shape with
  | none => exact (Probing.Table.find_empty key).symm
  | some shape => rfl

theorem slotInside_eq (inv : o.WellFormed) (key : LRString) :
    o.slotInside key = o.shape_get_slot key := by
  unfold slotInside
  cases found : o.shape_get_slot key with
  | none => rfl
  | some slot => simp [inv.inside found]

variable {prop : LRProperty}

theorem mem_of_find (found : o.find_own_prop key = some prop) : prop ∈ o.prop_hash :=
  mem_of_find?_eq_some found

/-- A property in the table is found by its key. -/
theorem find_of_mem (inv : o.WellFormed) (member : prop ∈ o.prop_hash) :
    o.find_own_prop prop.key = some prop := by
  have unique := inv.keys
  unfold find_own_prop
  revert member unique
  generalize o.prop_hash = chain
  intro member unique
  induction chain with
  | nil =>
    cases member
  | cons head rest ih =>
    rw [map_cons, nodup_cons] at unique
    by_cases same : head.key = prop.key
    · rcases mem_cons.mp member with rfl | behind
      · simp
      · exact absurd (same ▸ mem_map_of_mem behind) unique.1
    · rcases mem_cons.mp member with rfl | behind
      · exact absurd rfl same
      · simpa [same] using ih behind unique.2

theorem find_eq_none_iff : o.find_own_prop key = none ↔
    key ∉ o.prop_hash.map LRProperty.key := by
  simp [find_own_prop]

/-- An update of a property is found at its key, and leaves the others. -/
theorem find_updateProp {update : LRProperty → LRProperty}
    (keeps : ∀ prop, (update prop).key = prop.key) :
    (o.updateProp key update).find_own_prop other =
      (o.find_own_prop other).map fun prop => if other = key then update prop else prop := by
  unfold updateProp find_own_prop
  induction o.prop_hash with
  | nil =>
    rfl
  | cons head rest ih =>
    by_cases same : head.key = other
    · subst same
      by_cases target : head.key = key
      · simp [target, keeps]
      · simp [target]
    · by_cases target : head.key = key
      · simpa [target, keeps, target ▸ same] using ih
      · simpa [target, same] using ih

/-- An unlinked property is found no more, the others are. -/
theorem find_unlink : (o.unlink key).find_own_prop other =
    if other = key then none else o.find_own_prop other := by
  unfold unlink find_own_prop
  rw [find?_filter]
  by_cases same : other = key
  · subst same
    simp
  · rw [if_neg same]
    congr 1
    funext prop
    by_cases here : prop.key = other
    · simp [here, same]
    · simp [here]

theorem find_link : (o.link prop).find_own_prop other =
    if other = prop.key then some prop else o.find_own_prop other := by
  unfold link find_own_prop
  by_cases same : prop.key = other
  · simp [same]
  · simp [same, Ne.symm same]

variable {val : LRValue}

theorem find_setValue : (o.setValue key val).find_own_prop other =
    (o.find_own_prop other).map fun prop =>
      if other = key then { prop with value := val } else prop :=
  find_updateProp fun _ => rfl

theorem find_mergeAccessor {getter setter : LRValue} :
    (o.mergeAccessor key getter setter).find_own_prop other =
      (o.find_own_prop other).map fun prop =>
        if other = key then prop.mergeAccessor getter setter else prop :=
  find_updateProp fun _ => rfl

theorem find_demote {getter setter : LRValue} :
    (o.demote key getter setter).find_own_prop other =
      (o.find_own_prop other).map fun prop =>
        if other = key then
          { prop with value := getter, setter := setter, flags := accessorFlags getter setter }
        else prop :=
  find_updateProp fun _ => rfl

section Unchanged

variable {prop : LRProperty} {update : LRProperty → LRProperty} {slot : Nat} {val : LRValue}
variable {at_ : Addr} {getter setter : LRValue}

@[simp] theorem slot_setValue :
    (o.setValue key val).shape_get_slot other = o.shape_get_slot other := rfl

@[simp] theorem slot_mergeAccessor :
    (o.mergeAccessor key getter setter).shape_get_slot other = o.shape_get_slot other := rfl

@[simp] theorem slot_demote :
    (o.demote key getter setter).shape_get_slot other = o.shape_get_slot other := rfl

@[simp] theorem slot_unlink : (o.unlink key).shape_get_slot other = o.shape_get_slot other := rfl

@[simp] theorem slot_link : (o.link prop).shape_get_slot other = o.shape_get_slot other := rfl

@[simp] theorem slot_setSlot :
    (o.setSlot slot val).shape_get_slot other = o.shape_get_slot other := rfl

@[simp] theorem shape_mirror : (o.mirror key val).shape = o.shape := by
  unfold mirror
  split <;> rfl

@[simp] theorem slot_mirror : (o.mirror key val).shape_get_slot other = o.shape_get_slot other := by
  unfold mirror
  split <;> rfl

@[simp] theorem slot_bumpVersion : o.bumpVersion.shape_get_slot other = o.shape_get_slot other := by
  unfold bumpVersion shape_get_slot
  cases o.shape <;> rfl

@[simp] theorem prop_hash_mirror : (o.mirror key val).prop_hash = o.prop_hash := by
  unfold mirror
  split <;> rfl

@[simp] theorem prop_hash_bumpVersion : o.bumpVersion.prop_hash = o.prop_hash := rfl

@[simp] theorem prop_hash_shape_add_prop :
    (o.shape_add_prop key val at_).prop_hash = o.prop_hash := by
  unfold shape_add_prop
  dsimp only
  split <;> rfl

@[simp] theorem find_setSlot :
    (o.setSlot slot val).find_own_prop other = o.find_own_prop other := rfl

@[simp] theorem find_mirror : (o.mirror key val).find_own_prop other = o.find_own_prop other := by
  simp [find_own_prop]

@[simp] theorem find_bumpVersion : o.bumpVersion.find_own_prop other = o.find_own_prop other := rfl

@[simp] theorem find_shape_add_prop :
    (o.shape_add_prop key val at_).find_own_prop other = o.find_own_prop other := by
  simp [find_own_prop]

@[simp] theorem type_setValue : (o.setValue key val).type = o.type := rfl

@[simp] theorem type_mergeAccessor : (o.mergeAccessor key getter setter).type = o.type := rfl

@[simp] theorem type_demote : (o.demote key getter setter).type = o.type := rfl

@[simp] theorem type_unlink : (o.unlink key).type = o.type := rfl

@[simp] theorem type_link : (o.link prop).type = o.type := rfl

@[simp] theorem type_setSlot : (o.setSlot slot val).type = o.type := rfl

@[simp] theorem type_mirror : (o.mirror key val).type = o.type := by
  unfold mirror
  split <;> rfl

@[simp] theorem type_bumpVersion : o.bumpVersion.type = o.type := rfl

@[simp] theorem type_shape_add_prop : (o.shape_add_prop key val at_).type = o.type := by
  unfold shape_add_prop
  dsimp only
  split <;> rfl

@[simp] theorem proto_setValue : (o.setValue key val).proto = o.proto := rfl

@[simp] theorem proto_mergeAccessor : (o.mergeAccessor key getter setter).proto = o.proto := rfl

@[simp] theorem proto_demote : (o.demote key getter setter).proto = o.proto := rfl

@[simp] theorem proto_unlink : (o.unlink key).proto = o.proto := rfl

@[simp] theorem proto_link : (o.link prop).proto = o.proto := rfl

@[simp] theorem proto_setSlot : (o.setSlot slot val).proto = o.proto := rfl

@[simp] theorem proto_mirror : (o.mirror key val).proto = o.proto := by
  unfold mirror
  split <;> rfl

@[simp] theorem proto_bumpVersion : o.bumpVersion.proto = o.proto := rfl

@[simp] theorem proto_shape_add_prop : (o.shape_add_prop key val at_).proto = o.proto := by
  unfold shape_add_prop
  dsimp only
  split <;> rfl

@[simp] theorem props_setValue : (o.setValue key val).props = o.props := rfl

@[simp] theorem props_mergeAccessor : (o.mergeAccessor key getter setter).props = o.props := rfl

@[simp] theorem props_demote : (o.demote key getter setter).props = o.props := rfl

@[simp] theorem props_unlink : (o.unlink key).props = o.props := rfl

@[simp] theorem props_link : (o.link prop).props = o.props := rfl

@[simp] theorem props_bumpVersion : o.bumpVersion.props = o.props := rfl

@[simp] theorem length_setSlot : (o.setSlot slot val).props.length = o.props.length := by
  simp [setSlot]

@[simp] theorem length_mirror : (o.mirror key val).props.length = o.props.length := by
  unfold mirror
  split
  · exact length_setSlot
  · rfl

@[simp] theorem length_shape_add_prop :
    (o.shape_add_prop key val at_).props.length = o.props.length + 1 := by
  unfold shape_add_prop
  dsimp only
  split <;> simp

@[simp] theorem slotValue_setValue : (o.setValue key val).slotValue slot = o.slotValue slot := rfl

@[simp] theorem slotValue_unlink : (o.unlink key).slotValue slot = o.slotValue slot := rfl

@[simp] theorem slotValue_link : (o.link prop).slotValue slot = o.slotValue slot := rfl

@[simp] theorem slotValue_bumpVersion : o.bumpVersion.slotValue slot = o.slotValue slot := rfl

end Unchanged

/-- A new property gets the next slot, if the flat table has room. -/
theorem slot_shape_add_prop (inv : o.WellFormed) {at_ : Addr} :
    (o.shape_add_prop key val at_).shape_get_slot other =
      if other = key ∧ o.props.length < SHAPE_FLAT_SIZE then
        some ((o.shape_get_slot key).getD o.props.length)
      else
        o.shape_get_slot other := by
  unfold shape_add_prop
  by_cases room : o.props.length < SHAPE_FLAT_SIZE
  · have free : o.flat.count < SHAPE_FLAT_SIZE := Nat.lt_of_le_of_lt inv.counted room
    rw [if_pos (Nat.succ_le_of_lt room), if_pos free]
    change (o.flat.insert key o.props.length).find other = _
    rw [shape_get_slot_eq_flat, shape_get_slot_eq_flat]
    by_cases same : other = key
    · subst same
      simp [room, Probing.Table.find_insert_self other _ free]
    · simp [same, Probing.Table.find_insert_of_ne o.flat _ same]
  · rw [if_neg (by omega)]
    simp [room, shape_get_slot]

theorem slotValue_setSlot {slot slot' : Nat} (bound : slot < o.props.length) :
    (o.setSlot slot val).slotValue slot' = if slot' = slot then val else o.slotValue slot' := by
  unfold setSlot slotValue
  by_cases same : slot' = slot
  · subst same
    simp [bound]
  · simp [same, Ne.symm same]

theorem slotValue_mirror (inv : o.WellFormed) {slot : Nat} :
    (o.mirror key val).slotValue slot =
      if o.shape_get_slot key = some slot then val else o.slotValue slot := by
  unfold mirror
  rw [slotInside_eq inv]
  cases own : o.shape_get_slot key with
  | none => simp
  | some slot' => simp [slotValue_setSlot (inv.inside own), eq_comm]

/-- The slot of a new property has its value. -/
theorem slotValue_shape_add_prop {at_ : Addr} {slot : Nat} :
    (o.shape_add_prop key val at_).slotValue slot =
      if slot = o.props.length ∧ o.props.length < SHAPE_FLAT_SIZE then val
      else o.slotValue slot := by
  have appended : ∀ added : LRValue, (o.props ++ [added]).getD slot .undefined =
      if slot = o.props.length then added else o.props.getD slot .undefined := by
    intro added
    rw [getD_eq_getElem?_getD, getD_eq_getElem?_getD, getElem?_append]
    rcases Nat.lt_trichotomy slot o.props.length with less | same | more
    · simp [less, Nat.ne_of_lt less]
    · simp [same]
    · have outside : slot - o.props.length ≠ 0 := by omega
      simp [Nat.not_lt.mpr more.le, Nat.ne_of_gt more, outside]
  unfold shape_add_prop slotValue
  by_cases room : o.props.length < SHAPE_FLAT_SIZE
  · rw [if_pos (Nat.succ_le_of_lt room)]
    simp only [appended, room, and_true]
  · rw [if_neg (by omega)]
    simp only [appended, room, and_false, if_false]
    split
    · next same =>
        simp [same]
    · rfl

namespace WellFormed

theorem alloc (type : LRObjectType) (proto : LRValue) : (LRObject.alloc type proto).WellFormed where
  keys := nodup_nil
  inside := fun found => nomatch found
  injective := fun found => nomatch found
  counted := Nat.le_refl _

theorem of_views {o' : LRObject} (inv : o.WellFormed)
    (keys : (o'.prop_hash.map LRProperty.key).Nodup) (flat : o'.flat = o.flat)
    (length : o'.props.length = o.props.length) : o'.WellFormed := by
  have slots (key : LRString) : o'.shape_get_slot key = o.shape_get_slot key := by
    rw [shape_get_slot_eq_flat, shape_get_slot_eq_flat, flat]
  constructor
  · exact keys
  · intro key slot found
    rw [length]
    exact inv.inside (slots key ▸ found)
  · intro key other slot found found'
    exact inv.injective (slots key ▸ found) (slots other ▸ found')
  · rw [flat, length]
    exact inv.counted

theorem updateProp {update : LRProperty → LRProperty} (inv : o.WellFormed)
    (keeps : ∀ prop, (update prop).key = prop.key) : (o.updateProp key update).WellFormed := by
  refine inv.of_views ?_ rfl rfl
  have same : (o.updateProp key update).prop_hash.map LRProperty.key =
      o.prop_hash.map LRProperty.key := by
    rw [LRObject.updateProp, List.map_map]
    refine map_congr_left fun prop _ => ?_
    dsimp only [Function.comp]
    split
    · exact keeps prop
    · rfl
  exact same ▸ inv.keys

variable {val : LRValue}

theorem setValue (inv : o.WellFormed) : (o.setValue key val).WellFormed :=
  inv.updateProp fun _ => rfl

theorem mergeAccessor {getter setter : LRValue} (inv : o.WellFormed) :
    (o.mergeAccessor key getter setter).WellFormed :=
  inv.updateProp fun _ => rfl

theorem demote {getter setter : LRValue} (inv : o.WellFormed) :
    (o.demote key getter setter).WellFormed :=
  inv.updateProp fun _ => rfl

theorem unlink (inv : o.WellFormed) : (o.unlink key).WellFormed :=
  inv.of_views (inv.keys.sublist (filter_sublist.map _)) rfl rfl

section

variable (inv : o.WellFormed)
include inv

theorem link {prop : LRProperty}
    (isNew : o.find_own_prop prop.key = none) : (o.link prop).WellFormed :=
  inv.of_views (nodup_cons.mpr ⟨find_eq_none_iff.mp isNew, inv.keys⟩) rfl rfl

theorem setSlot {slot : Nat} : (o.setSlot slot val).WellFormed :=
  inv.of_views inv.keys rfl length_setSlot

theorem mirror : (o.mirror key val).WellFormed := by
  unfold LRObject.mirror
  split
  · exact inv.setSlot
  · exact inv

theorem bumpVersion : o.bumpVersion.WellFormed := by
  refine inv.of_views inv.keys ?_ rfl
  unfold LRObject.bumpVersion flat
  cases o.shape <;> rfl

/-- Adding a property keeps the object well formed. -/
theorem shape_add_prop {at_ : Addr} : (o.shape_add_prop key val at_).WellFormed := by
  constructor
  · unfold LRObject.shape_add_prop
    dsimp only
    split <;> exact inv.keys
  · intro other slot found
    rw [slot_shape_add_prop inv] at found
    rw [length_shape_add_prop]
    split at found
    · cases old : o.shape_get_slot key with
      | none =>
        simp only [old, getD_none, some.injEq] at found
        omega
      | some kept =>
        have bound := inv.inside old
        simp only [old, getD_some, some.injEq] at found
        omega
    · exact Nat.lt_succ_of_lt (inv.inside found)
  · have owner {other : LRString} {slot : Nat}
        (found : (o.shape_add_prop key val at_).shape_get_slot other = some slot) :
        o.shape_get_slot other = some slot ∨ (other = key ∧ slot = o.props.length) := by
      rw [slot_shape_add_prop inv] at found
      split at found
      · next this =>
          cases old : o.shape_get_slot key with
          | none => exact Or.inr ⟨this.1, by simpa [old] using found.symm⟩
          | some kept => exact Or.inl (by simpa [old, this.1] using found)
      · exact Or.inl found
    intro first second slot found found'
    rcases owner found with old | ⟨rfl, fresh⟩ <;> rcases owner found' with old' | ⟨rfl, fresh'⟩
    · exact inv.injective old old'
    · exact absurd (inv.inside old) (by omega)
    · exact absurd (inv.inside old') (by omega)
    · rfl
  · rw [length_shape_add_prop]
    unfold LRObject.shape_add_prop
    dsimp only
    have bound := inv.counted
    split
    · change (if _ then o.flat.insert key o.props.length else o.flat).count ≤ _
      split
      · exact Nat.le_trans (o.flat.count_le_insert key _) (Nat.succ_le_succ bound)
      · exact Nat.le_succ_of_le bound
    · exact Nat.le_succ_of_le bound

end

end WellFormed

end LRObject

/-- A hit of the shape cache on live entries is an own data property. -/
theorem Heap.shape_cache_lookup_some {h : Heap} {a : Addr} {o : LRObject} {atom : LRString}
    {v : LRValue} (live : h.objs a = some o) (hit : h.shape_cache_lookup a atom = some v) :
    ∃ prop ∈ o.prop_hash, prop.key = atom ∧ prop.flags.accessor = false ∧ prop.value = v := by
  simp only [Heap.shape_cache_lookup, bind_eq_bind, bind_eq_some_iff,
    Heap.propAt, live] at hit
  obtain ⟨entry, _, hit⟩ := hit
  split at hit
  · simp only [bind_eq_some_iff, some.injEq, exists_eq_left'] at hit
    obtain ⟨prop, found, hit⟩ := hit
    split at hit
    · next same =>
        exact ⟨prop, mem_of_find?_eq_some found, same.1, same.2, some.inj hit⟩
    · cases hit
  · cases hit

end LRJS
