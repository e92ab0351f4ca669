import LRJS.LiveEntries

/-!
# The property store as a finite map

What a sequence of property operations on one ordinary object is for: a finite map from keys to
values.  The engine keeps every value twice, and assignment to a recorded key of a small plain
object writes only the copy in the slot.  The store reads like the map exactly as long as such an
assignment stores what the other copy holds already.
-/

namespace LRJS

open Function List Option LRObject

abbrev PropertyMap :=
  LRString → Option LRValue

inductive StoreOp where
  | set (key : LRString) (val : LRValue) (at_ : Addr)
  | define (key : LRString) (val : LRValue) (at_ : Addr)
  | get (key : LRString)
  | getDirect (key : LRString)
  | has (key : LRString)
  | delete (key : LRString)

namespace StoreOp

def apply (m : PropertyMap) : StoreOp → PropertyMap
  | .set key val _ | .define key val _ => Function.update m key (some val)
  | .delete key => Function.update m key none
  | .get _ | .getDirect _ | .has _ => m

/-- The operation of the engine on the object at `a`. -/
def run (fuel : Nat) (h : Heap) (a : Addr) : StoreOp → Option Heap
  | .set key val at_ => (lr_set_property fuel h a key val at_).map Prod.fst
  | .define key val at_ => (lr_define_property_value fuel h a key val at_).map Prod.fst
  | .get key => (lr_get_property fuel h a key).map Prod.fst
  | .getDirect key => (lr_get_property_direct fuel h (.object a) key).map fun _ => h
  | .has key => (lr_has_property fuel h a key).map Prod.fst
  | .delete key => (lr_delete_property fuel h a key).map Prod.fst

end StoreOp

/-- Every read answers like the map, and none goes to a freed property. -/
structure ReadsLike (fuel : Nat) (h : Heap) (a : Addr) (m : PropertyMap) : Prop where
  get : ∀ key, (lr_get_property fuel h a key).map Prod.snd =
    some (.value ((m key).getD .undefined))
  direct : ∀ key, lr_get_property_direct fuel h (.object a) key =
    some (.value ((m key).getD .undefined))
  has : ∀ key, (lr_has_property fuel h a key).map Prod.snd = some (.truth (m key).isSome)
  entries : h.EntriesLive a

def ReadsLikeThroughout (fuel : Nat) (a : Addr) :
    Heap → PropertyMap → List StoreOp → Prop
  | h, m, [] => ReadsLike fuel h a m
  | h, m, op :: rest =>
    ReadsLike fuel h a m ∧
      ∃ h', op.run fuel h a = some h' ∧ ReadsLikeThroughout fuel a h' (op.apply m) rest

/-- An assignment on the shape fast path, which writes only the slot, stores the
value that the property of the key holds. -/
def SlotWriteKeeps (h : Heap) (a : Addr) (key : LRString) (val : LRValue) : Prop :=
  ∀ o, h.objs a = some o → (o.fastSlot key).isSome →
    (o.find_own_prop key).map LRProperty.value = some val

def StoreOp.Keeps (h : Heap) (a : Addr) : StoreOp → Prop
  | .set key val _ | .define key val _ => SlotWriteKeeps h a key val
  | _ => True

def KeepsThroughout (fuel : Nat) (a : Addr) : Heap → List StoreOp → Prop
  | _, [] => True
  | h, op :: rest => op.Keeps h a ∧ ∀ h', op.run fuel h a = some h' → KeepsThroughout fuel a h' rest

def LRObjectType.ordinary : LRObjectType → Bool
  | .plain | .function | .cfunction | .bytecodeFunc | .other => true
  | .array _ | .proxy _ | .typedArray _ => false

def LRObject.Mirrored (o : LRObject) : Prop :=
  o.type.isPlain → o.props.length < SHAPE_FLAT_SIZE → ∀ key slot,
    o.shape_get_slot key = some slot → o.slotValue slot = .undefined ∨
      (o.find_own_prop key).map LRProperty.value = some (o.slotValue slot)

structure Represents (o : LRObject) (m : PropertyMap) : Prop where
  wellFormed : o.WellFormed
  ordinary : o.type.ordinary
  proto : o.proto = .null
  data : ∀ prop ∈ o.prop_hash, prop.flags.accessor = false
  values : ∀ key, (o.find_own_prop key).map LRProperty.value = m key
  mirrored : o.Mirrored

namespace Represents

variable {fuel : Nat} {h : Heap} {a : Addr} {o : LRObject} {m : PropertyMap}

variable {key : LRString}

section

variable (rep : Represents o m)
include rep

theorem getter_of_find {prop : LRProperty}
    (found : o.find_own_prop key = some prop) : prop.flags.getter = false := by
  have data := rep.data prop (mem_of_find found)
  simp only [LRPropFlags.accessor, Bool.or_eq_false_iff] at data
  exact data.1

theorem slowGet (key : LRString) (live : h.objs a = some o) :
    (LRJS.slowGet fuel h a o key).map Prod.snd =
      some (.value ((m key).getD .undefined)) := by
  have values := rep.values key
  unfold LRJS.slowGet
  split
  · next cached hit =>
      obtain ⟨prop, member, rfl, -, rfl⟩ := Heap.shape_cache_lookup_some live hit
      rw [find_of_mem rep.wellFormed member] at values
      simp [← values]
  · cases found : o.find_own_prop key with
    | none =>
      rw [found] at values
      simp [protoGet, rep.proto, ← values]
    | some prop =>
      rw [found] at values
      simp [lr_property_get, rep.getter_of_find found, ← values]

theorem fastGet {v : LRValue} (hit : LRJS.fastGet o key = some v) : m key = some v := by
  simp only [LRJS.fastGet, filter_eq_some_iff, map_eq_some_iff] at hit
  obtain ⟨⟨slot, found, rfl⟩, defined⟩ := hit
  unfold LRObject.fastSlot at found
  split at found
  · next small =>
      simp only [LRObject.small, Bool.and_eq_true, decide_eq_true_eq] at small
      rw [LRObject.slotInside_eq rep.wellFormed] at found
      rcases rep.mirrored small.1.1.1 small.2 key slot found with nothing | same
      · simp [nothing] at defined
      · exact (rep.values key).symm.trans same
  · cases found

theorem lr_get_property (key : LRString) (live : h.objs a = some o) :
    (LRJS.lr_get_property fuel h a key).map Prod.snd =
      some (.value ((m key).getD .undefined)) := by
  simp only [LRJS.lr_get_property, live, bind_eq_bind, bind_some]
  split
  · next v hit =>
      simp [rep.fastGet hit]
  · have ordinary := rep.ordinary
    cases type : o.type <;> simp only [type, LRObjectType.ordinary, Bool.false_eq_true] at ordinary
    all_goals exact rep.slowGet key live

theorem lr_get_property_direct (key : LRString) (live : h.objs a = some o) :
    LRJS.lr_get_property_direct fuel h (.object a) key =
      some (.value ((m key).getD .undefined)) := by
  have values := rep.values key
  simp only [LRJS.lr_get_property_direct, live, bind_eq_bind, bind_some]
  cases found : o.find_own_prop key with
  | none =>
    rw [found] at values
    simp [protoGetDirect, rep.proto, ← values]
  | some prop =>
    rw [found] at values
    simp [lr_property_get, rep.getter_of_find found, ← values]

theorem lr_has_property (key : LRString) (live : h.objs a = some o) :
    LRJS.lr_has_property fuel h a key = some (h, .truth (m key).isSome) := by
  have values := rep.values key
  have ordinary := rep.ordinary
  simp only [LRJS.lr_has_property, live, bind_eq_bind, bind_some]
  cases found : o.find_own_prop key with
  | none =>
    rw [found] at values
    have passed : protoHas h key fuel o.proto = some (h, .truth (m key).isSome) := by
      simp [protoHas, rep.proto, ← values]
    cases type : o.type <;> simp only [type, LRObjectType.ordinary, Bool.false_eq_true] at ordinary
    all_goals exact passed
  | some prop =>
    rw [found] at values
    have held : (m key).isSome = true := by
      rw [← values]
      rfl
    rw [held]
    cases type : o.type <;> simp only [type, LRObjectType.ordinary, Bool.false_eq_true] at ordinary
    all_goals rfl

theorem readsLike (live : h.objs a = some o) (entries : h.EntriesLive a) :
    ReadsLike fuel h a m where
  get := fun key => rep.lr_get_property key live
  direct := fun key => rep.lr_get_property_direct key live
  has := fun key => by rw [rep.lr_has_property key live]; rfl
  entries := entries

theorem setSlot {slot : Nat} {val : LRValue} (found : o.shape_get_slot key = some slot)
    (kept : (o.find_own_prop key).map LRProperty.value = some val) :
    Represents (o.setSlot slot val) (Function.update m key (some val)) where
  wellFormed := rep.wellFormed.setSlot
  ordinary := rep.ordinary
  proto := rep.proto
  data := rep.data
  values := by
    intro other
    rw [find_setSlot, rep.values other]
    by_cases same : other = key
    · subst same
      rw [update_self, ← rep.values other, kept]
    · rw [update_of_ne same]
  mirrored := by
    intro plain small other slot' found'
    rw [length_setSlot] at small
    rw [slotValue_setSlot (rep.wellFormed.inside found), find_setSlot]
    split
    · next same =>
        subst same
        rw [rep.wellFormed.injective found' found, kept]
        exact Or.inr rfl
    · exact rep.mirrored plain small other slot' found'

/-- Writing a property and its mirror updates its key. -/
theorem updateBoth {prop : LRProperty} {val : LRValue} (found : o.find_own_prop key = some prop) :
    Represents ((o.setValue key val).mirror key val) (Function.update m key (some val)) where
  wellFormed := rep.wellFormed.setValue.mirror
  ordinary := by
    simpa using rep.ordinary
  proto := by
    simpa using rep.proto
  data := by
    intro updated member
    rw [prop_hash_mirror] at member
    obtain ⟨prop, inside, rfl⟩ := mem_map.mp member
    have data := rep.data prop inside
    split <;> exact data
  values := by
    intro other
    rw [find_mirror, find_setValue]
    by_cases same : other = key
    · subst same
      simp [found]
    · rw [update_of_ne same, ← rep.values other]
      simp [same]
  mirrored := by
    intro plain small other slot recorded
    simp only [type_mirror, type_setValue] at plain
    simp only [length_mirror, props_setValue] at small
    simp only [slot_mirror, slot_setValue] at recorded
    rw [find_mirror, find_setValue,
      slotValue_mirror rep.wellFormed.setValue, slot_setValue]
    by_cases same : other = key
    · subst same
      simp [recorded, found]
    · have unshared : o.shape_get_slot key ≠ some slot := fun own =>
        same (rep.wellFormed.injective recorded own)
      simpa [same, unshared] using rep.mirrored plain small other slot recorded

theorem unrecorded (noSlot : o.fastSlot key = none)
    (plain : o.type.isPlain) (room : o.props.length < SHAPE_FLAT_SIZE) :
    o.shape_get_slot key = none := by
  cases recorded : o.shape_get_slot key with
  | none =>
    rfl
  | some slot =>
    have shaped : o.shape.isSome := by
      cases shape : o.shape with
      | none => simp [shape_get_slot, shape] at recorded
      | some _ => rfl
    have nonempty : o.props ≠ [] :=
      ne_nil_of_length_pos (Nat.zero_lt_of_lt (rep.wellFormed.inside recorded))
    have small : o.small = true := by
      simp [small, plain, shaped, nonempty, room]
    rw [fastSlot, if_pos small, slotInside_eq rep.wellFormed,
      recorded] at noSlot
    cases noSlot

/-- A linked property adds its key. -/
theorem newProperty {val : LRValue} {at_ : Addr} {id : Nat} (isNew : o.find_own_prop key = none)
    (noSlot : o.fastSlot key = none) :
    Represents ((o.link ⟨id, key, val, .undefined, .normal⟩).shape_add_prop key val at_)
      (Function.update m key (some val)) where
  wellFormed := (rep.wellFormed.link isNew).shape_add_prop
  ordinary := by
    simpa using rep.ordinary
  proto := by
    simpa using rep.proto
  data := by
    intro prop member
    rw [prop_hash_shape_add_prop] at member
    rcases mem_cons.mp member with rfl | inside
    · rfl
    · exact rep.data prop inside
  values := by
    intro other
    rw [find_shape_add_prop, find_link]
    by_cases same : other = key
    · simp [same]
    · simp [same, rep.values]
  mirrored := by
    intro plain small other slot recorded
    simp only [type_shape_add_prop, type_link] at plain
    simp only [length_shape_add_prop, props_link] at small
    have room : o.props.length < SHAPE_FLAT_SIZE := Nat.lt_of_succ_lt small
    rw [slot_shape_add_prop (rep.wellFormed.link isNew)] at recorded
    simp only [slot_link, props_link, room, and_true,
      rep.unrecorded noSlot plain room, getD_none] at recorded
    rw [slotValue_shape_add_prop, find_shape_add_prop, find_link]
    simp only [props_link, slotValue_link, room, and_true]
    by_cases same : other = key
    · rw [if_pos same, some.injEq] at recorded
      simp [same, recorded]
    · rw [if_neg same] at recorded
      have old : slot ≠ o.props.length := Nat.ne_of_lt (rep.wellFormed.inside recorded)
      rw [if_neg old, if_neg same]
      exact rep.mirrored plain room other slot recorded

end

/-- Unlinking a property removes its key. -/
theorem unlink {key : LRString} (rep : Represents o m) :
    Represents (((o.unlink key).mirror key .undefined).bumpVersion)
      (Function.update m key none) where
  wellFormed := rep.wellFormed.unlink.mirror.bumpVersion
  ordinary := by
    simpa using rep.ordinary
  proto := by
    simpa using rep.proto
  data := by
    intro prop member
    rw [prop_hash_bumpVersion, prop_hash_mirror] at member
    exact rep.data prop (mem_filter.mp member).1
  values := by
    intro other
    rw [find_bumpVersion, find_mirror, find_unlink]
    by_cases same : other = key
    · simp [same]
    · simp [same, rep.values]
  mirrored := by
    intro plain small other slot recorded
    simp only [type_bumpVersion, type_mirror, type_unlink] at plain
    simp only [props_bumpVersion, length_mirror, props_unlink] at small
    simp only [slot_bumpVersion, slot_mirror, slot_unlink] at recorded
    rw [find_bumpVersion, find_mirror, find_unlink,
      slotValue_bumpVersion, slotValue_mirror rep.wellFormed.unlink,
      slot_unlink, slotValue_unlink]
    by_cases same : other = key
    · simp [← same, recorded]
    · have unshared : o.shape_get_slot key ≠ some slot := fun own =>
        same (rep.wellFormed.injective recorded own)
      rw [if_neg same, if_neg unshared]
      exact rep.mirrored plain small other slot recorded

end Represents

/-- The heap holds an object at `a` that stands for the map. -/
def Stands (h : Heap) (a : Addr) (m : PropertyMap) : Prop :=
  ∃ o, h.objs a = some o ∧ Represents o m

namespace Stands

variable {fuel : Nat} {h : Heap} {a : Addr} {m : PropertyMap}

theorem put {o : LRObject} (rep : Represents o m) : Stands (h.put a o) a m :=
  ⟨o, update_self .., rep⟩

theorem readsLike (stands : Stands h a m) (entries : h.EntriesLive a) :
    ReadsLike fuel h a m := by
  obtain ⟨o, live, rep⟩ := stands
  exact rep.readsLike live entries

variable {key : LRString}

theorem storeProperty {o : LRObject} {val : LRValue} {at_ : Addr}
    (rep : Represents o m) (noSlot : o.fastSlot key = none) :
    ∃ h' reply, LRJS.storeProperty fuel h a o key val at_ = some (h', reply) ∧
      Stands h' a (Function.update m key (some val)) := by
  unfold LRJS.storeProperty
  cases found : o.find_own_prop key with
  | some prop =>
    have data := rep.data prop (mem_of_find found)
    simp only [lr_property_try_set_accessor, data, Bool.false_eq_true, if_false]
    exact ⟨_, _, rfl, put (rep.updateBoth found)⟩
  | none =>
    have alone : protoFind h key fuel o.proto = some none := by
      simp [protoFind, rep.proto]
    simp only [alone, bind_eq_bind, bind_some, bind_none]
    exact ⟨_, _, rfl, put (rep.newProperty found noSlot)⟩

section

variable (stands : Stands h a m)
include stands

theorem lr_set_property {val : LRValue} {at_ : Addr} (keeps : SlotWriteKeeps h a key val) :
    ∃ h', (LRJS.lr_set_property fuel h a key val at_).map Prod.fst = some h' ∧
      Stands h' a (Function.update m key (some val)) := by
  obtain ⟨o, live, rep⟩ := stands
  simp only [LRJS.lr_set_property, live, bind_eq_bind, bind_some]
  cases fast : o.fastSlot key with
  | some slot =>
    have kept := keeps o live (by simp [fast])
    have recorded : o.shape_get_slot key = some slot := by
      rw [← slotInside_eq rep.wellFormed]
      unfold fastSlot at fast
      split at fast
      · exact fast
      · cases fast
    exact ⟨_, rfl, put (rep.setSlot recorded kept)⟩
  | none =>
    obtain ⟨h', reply, stored, stands'⟩ : ∃ h' reply,
        LRJS.storeProperty fuel h a o key val at_ = some (h', reply) ∧
          Stands h' a (update m key (some val)) := storeProperty rep fast
    have ordinary := rep.ordinary
    refine ⟨h', ?_, stands'⟩
    cases type : o.type <;>
      simp only [type, LRObjectType.ordinary, Bool.false_eq_true] at ordinary
    all_goals simp [stored]

theorem lr_delete_property :
    ∃ h', (LRJS.lr_delete_property fuel h a key).map Prod.fst = some h' ∧
      Stands h' a (Function.update m key none) := by
  obtain ⟨o, live, rep⟩ := stands
  have deleted : Stands (lr_object_delete_own_prop h a o key).1 a
      (update m key none) := by
    unfold lr_object_delete_own_prop
    cases found : o.find_own_prop key with
    | none =>
      have absent : update m key none = m := by
        have values := rep.values key
        rw [found] at values
        exact update_eq_self_iff.mpr values
      rw [absent]
      exact ⟨o, live, rep⟩
    | some prop =>
      exact put rep.unlink
  have ordinary := rep.ordinary
  refine ⟨_, ?_, deleted⟩
  simp only [LRJS.lr_delete_property, live, bind_eq_bind, bind_some]
  cases type : o.type <;> simp only [type, LRObjectType.ordinary, Bool.false_eq_true] at ordinary
  all_goals rfl

theorem lr_get_property :
    ∃ h', (LRJS.lr_get_property fuel h a key).map Prod.fst = some h' ∧ Stands h' a m := by
  obtain ⟨o, live, rep⟩ := stands
  have reads : (LRJS.lr_get_property fuel h a key).map Prod.snd = _ :=
    rep.lr_get_property key live
  obtain ⟨⟨h', reply⟩, result, _⟩ := map_eq_some_iff.mp reads
  refine ⟨h', by rw [result]; rfl, o, ?_, rep⟩
  have ordinary := rep.ordinary
  simp only [LRJS.lr_get_property, live, bind_eq_bind, bind_some] at result
  have kept {h' : Heap} {reply : Reply}
      (slow : slowGet fuel h a o key = some (h', reply)) : h'.objs a = some o := by
    simp only [slowGet, protoGet, rep.proto] at slow
    split at slow
    · cases slow
      exact live
    · split at slow <;> cases slow <;> exact live
  split at result
  · cases result
    exact live
  · cases type : o.type <;>
      simp only [type, LRObjectType.ordinary, Bool.false_eq_true] at ordinary
    all_goals
      simp only [type] at result
      exact kept result

theorem step {op : StoreOp} (keeps : op.Keeps h a) (entries : h.EntriesLive a) :
    ∃ h', op.run fuel h a = some h' ∧ Stands h' a (op.apply m) ∧ h'.EntriesLive a := by
  have kept {run : Option (Heap × Reply)} {after : Heap} (ran : run.map Prod.fst = some after)
      (keeps : ∀ reply, run = some (after, reply) → after.EntriesLive a) :
      after.EntriesLive a := by
    obtain ⟨⟨_, reply⟩, answered, rfl⟩ := map_eq_some_iff.mp ran
    exact keeps reply answered
  cases op with
  | set key val at_ | define key val at_ =>
    obtain ⟨h', run, stands'⟩ := stands.lr_set_property keeps
    exact ⟨h', run, stands', kept run fun _ ran => lr_set_property_entries entries ran⟩
  | get key =>
    obtain ⟨h', run, stands'⟩ := stands.lr_get_property
    exact ⟨h', run, stands', kept run fun _ ran => lr_get_property_entries entries ran⟩
  | getDirect key =>
    obtain ⟨o, live, rep⟩ := stands
    refine ⟨h, ?_, ⟨o, live, rep⟩, entries⟩
    rw [StoreOp.run, rep.lr_get_property_direct key live]
    rfl
  | has key =>
    obtain ⟨o, live, rep⟩ := stands
    refine ⟨h, ?_, ⟨o, live, rep⟩, entries⟩
    rw [StoreOp.run, rep.lr_has_property key live]
    rfl
  | delete key =>
    obtain ⟨h', run, stands'⟩ := stands.lr_delete_property
    exact ⟨h', run, stands', kept run fun _ ran => lr_delete_property_entries entries ran⟩

end

end Stands

/-- A write that changes only the slot is not read back. -/
theorem not_readsLike_of_slotWrite {fuel : Nat} {h h' : Heap} {a : Addr} {m : PropertyMap}
    {key : LRString} {val : LRValue} {at_ : Addr} (stands : Stands h a m)
    (changes : ¬ SlotWriteKeeps h a key val)
    (run : (lr_set_property fuel h a key val at_).map Prod.fst = some h') :
    ¬ ReadsLike fuel h' a (Function.update m key (some val)) := by
  intro reads
  obtain ⟨o, live, rep⟩ := stands
  apply changes
  intro o' live' fast
  obtain rfl : o = o' := some.inj (live.symm.trans live')
  obtain ⟨slot, fast⟩ := isSome_iff_exists.mp fast
  simp only [lr_set_property, live, bind_eq_bind, bind_some, fast,
    map_some, some.injEq] at run
  subst run
  have direct := reads.direct key
  have has := reads.has key
  simp only [lr_get_property_direct, Heap.put, update_self, bind_eq_bind,
    bind_some, find_setSlot, getD_some] at direct
  cases found : o.find_own_prop key with
  | none =>
    have ordinary := rep.ordinary
    simp only [lr_has_property, Heap.put, update_self, bind_eq_bind,
      bind_some, find_setSlot, type_setSlot, found,
      proto_setSlot, rep.proto, protoHas] at has
    cases type : o.type <;>
      simp only [type, LRObjectType.ordinary, Bool.false_eq_true] at ordinary
    all_goals simp [type] at has
  | some prop =>
    simpa [found, lr_property_get, rep.getter_of_find found] using direct

theorem readsLikeThroughout_iff_of_stands {fuel : Nat} {a : Addr} (ops : List StoreOp) :
    ∀ {h : Heap} {m : PropertyMap}, Stands h a m → h.EntriesLive a →
      (ReadsLikeThroughout fuel a h m ops ↔ KeepsThroughout fuel a h ops) := by
  induction ops with
  | nil =>
    intro h m stands entries
    exact ⟨fun _ => trivial, fun _ => stands.readsLike entries⟩
  | cons op rest ih =>
    intro h m stands entries
    rw [ReadsLikeThroughout, KeepsThroughout]
    by_cases keeps : op.Keeps h a
    · obtain ⟨h', run, stands', entries'⟩ :
          ∃ h', op.run fuel h a = some h' ∧ Stands h' a (op.apply m) ∧ h'.EntriesLive a :=
        stands.step keeps entries
      simp only [run, stands.readsLike entries, keeps, true_and, some.injEq, exists_eq_left',
        forall_eq']
      exact ih stands' entries'
    · refine ⟨?_, fun both => absurd both.1 keeps⟩
      rintro ⟨_, h', run, later⟩
      have reads : ReadsLike fuel h' a (op.apply m) := by
        cases rest with
        | nil => exact later
        | cons _ _ => exact later.1
      cases op with
      | set key val at_ | define key val at_ =>
        exact absurd reads (not_readsLike_of_slotWrite stands keeps run)
      | get key | getDirect key | has key | delete key => exact absurd trivial keeps

/-- From a new ordinary object without prototype, at an address that the shape cache does not
remember, every state of a run reads like the finite map exactly if every assignment on the shape
fast path stores the value that the property holds. -/
theorem property_store_refines_map (fuel : Nat) (h : Heap) (a : Addr) (type : LRObjectType)
    (unremembered : h.Unremembered a) (ordinary : type.ordinary) (ops : List StoreOp) :
    ReadsLikeThroughout fuel a (lr_new_object h a type .null) (fun _ => none) ops ↔
      KeepsThroughout fuel a (lr_new_object h a type .null) ops := by
  refine readsLikeThroughout_iff_of_stands ops (Stands.put ?_) (.of_unremembered unremembered)
  exact {
    wellFormed := .alloc type .null
    ordinary := ordinary
    proto := rfl
    data := fun _ member => nomatch member
    values := fun _ => rfl
    mirrored := fun _ _ _ _ recorded => nomatch recorded }

def Heap.empty : Heap :=
  ⟨fun _ => none, fun _ => none, fun _ => 0, 0⟩

def atomA : LRString :=
  ⟨"a", 0x1000⟩

/-- Making and deleting a property keeps the object in step with the map. -/
theorem property_store_refines_map_deletion :
    ReadsLikeThroughout 0 1 (lr_new_object .empty 1 .plain .null) (fun _ => none)
      [.set atomA (.int32 1) 100, .get atomA, .delete atomA] := by
  have unremembered : Heap.empty.Unremembered 1 := fun _ _ cached => nomatch cached
  refine (property_store_refines_map 0 .empty 1 .plain unremembered rfl _).mpr ⟨?_, ?_⟩
  · intro o live fast
    cases live
    cases fast
  · exact fun _ _ => ⟨trivial, fun _ _ => ⟨trivial, fun _ _ => trivial⟩⟩

/-- `o.a = 1; o.a = undefined; o.a` answers 1: the second assignment only clears the slot. -/
theorem undefined_write_lost :
    ¬ ReadsLikeThroughout 0 1 (lr_new_object .empty 1 .plain .null) (fun _ => none)
      [.set atomA (.int32 1) 100, .set atomA .undefined 101] := by
  rintro ⟨_, _, ⟨⟩, _, _, ⟨⟩, reads⟩
  exact absurd (reads.get atomA) (by decide)

end LRJS
