import LRJS.Enumeration
import LRJS.InlineCache

/-!
# Own keys

Four operations look at the own keys of an object.  Enumeration, membership and
deletion know the chain of properties only; a read also finds the elements and
the length of an array, the elements of a typed array, and the slot of a key
that was deleted and then assigned to again.
-/

namespace LRJS

open List Option LRObject

def Heap.Sound (h : Heap) : Prop :=
  ∀ a o, h.objs a = some o → o.WellFormed ∧ o.Chronological h.next_prop

namespace LRObject.Chronological

variable {o o' : LRObject} {next next' : Nat}

section

variable (ordered : o.Chronological next)
include ordered

theorem of_ids (ids : o'.prop_hash.map LRProperty.id = o.prop_hash.map LRProperty.id)
    (later : next ≤ next') :
    o'.Chronological next' where
  newestFirst := ids ▸ ordered.newestFirst
  below := fun id member => Nat.lt_of_lt_of_le (ordered.below id (ids ▸ member)) later

theorem updateProp {key : LRString} {update : LRProperty → LRProperty}
    (sameId : ∀ prop, (update prop).id = prop.id) (later : next ≤ next') :
    (o.updateProp key update).Chronological next' := by
  refine ordered.of_ids ?_ later
  rw [LRObject.updateProp, List.map_map]
  refine map_congr_left fun prop _ => ?_
  dsimp only [Function.comp]
  split
  · exact sameId prop
  · rfl

/-- A property that is linked now is the youngest. -/
theorem link {prop : LRProperty} (named : prop.id = next) (later : next' = next + 1) :
    (o.link prop).Chronological next' := by
  constructor
  · refine pairwise_cons.mpr ⟨fun id member => ?_, ordered.newestFirst⟩
    rw [named]
    exact ordered.below id member
  · intro id member
    rcases mem_cons.mp member with rfl | older
    · omega
    · have bound := ordered.below id older
      omega

theorem unlink {key : LRString} (later : next ≤ next') :
    (o.unlink key).Chronological next' := by
  have fewer : ((o.unlink key).prop_hash.map LRProperty.id).Sublist
      (o.prop_hash.map LRProperty.id) :=
    filter_sublist.map _
  exact ⟨ordered.newestFirst.sublist fewer, fun id member =>
    Nat.lt_of_lt_of_le (ordered.below id (fewer.subset member)) later⟩

end

theorem change {key : LRString} {made : Option Addr} {deletes : Bool}
    (changed : ObjChange key made deletes (next, next') o o') (later : next ≤ next')
    (ordered : o.Chronological next) : o'.Chronological next' := by
  induction changed with
  | elements type _ _ _ ih =>
    exact ih ⟨ordered.newestFirst, ordered.below⟩
  | same o | slot val recorded => exact ordered.of_ids rfl later
  | @both o prop val found data =>
    have stored : (o.setValue key val).Chronological next' :=
      ordered.updateProp (fun _ => rfl) later
    refine stored.of_ids ?_ (Nat.le_refl _)
    rw [prop_hash_mirror]
  | direct val found data => exact ordered.updateProp (fun _ => rfl) later
  | @fresh o at_ val isNew allocated numbered =>
    have linked : (o.link ⟨next, key, val, .undefined, .normal⟩).Chronological next' :=
      ordered.link rfl numbered
    refine linked.of_ids ?_ (Nat.le_refl _)
    rw [prop_hash_shape_add_prop]
  | merge getter setter found accessor => exact ordered.updateProp (fun _ => rfl) later
  | @demote o prop getter setter found data =>
    have demoted : (o.demote key getter setter).Chronological next' :=
      ordered.updateProp (fun _ => rfl) later
    refine demoted.of_ids ?_ (Nat.le_refl _)
    rw [prop_hash_bumpVersion, prop_hash_mirror]
  | accessor getter setter isNew defining numbered => exact ordered.link rfl numbered
  | @unlink o prop found deleting =>
    have unlinked : (o.unlink key).Chronological next' := ordered.unlink later
    refine unlinked.of_ids ?_ (Nat.le_refl _)
    rw [prop_hash_bumpVersion, prop_hash_mirror]

end LRObject.Chronological

namespace Heap.Sound

variable {pool : Nat → Name} {fuel : Nat} {vm vm' : PropVM} {event : PropEvent} {h h' : Heap}
variable {a : Addr} {o : LRObject}

theorem put (sound : h.Sound) (wellFormed : o.WellFormed)
    (ordered : o.Chronological h.next_prop) : (h.put a o).Sound := by
  intro b o' live
  by_cases same : b = a
  · subst same
    rw [Heap.put_self, some.injEq] at live
    subst live
    exact ⟨wellFormed, ordered⟩
  · rw [Heap.put_of_ne h o same] at live
    exact sound b o' live

/-- A step of the heap keeps the order of keys sound. -/
theorem heapStep (sound : h.Sound) (step : HeapStep pool h event h') : h'.Sound := by
  cases step with
  | keeps objs atoms counter =>
    intro b o' live
    rw [objs] at live
    rw [counter]
    exact sound b o' live
  | @change target key touched changed =>
    intro b o' live
    have older {o : LRObject} (was : h.objs b = some o) :
        o.WellFormed ∧ o.Chronological h'.next_prop := by
      obtain ⟨wellFormed, ordered⟩ := sound b o was
      exact ⟨wellFormed, ordered.of_ids rfl changed.counter⟩
    rcases changed.objs with same | ⟨before, after, was, change, objs⟩
    · rw [same] at live
      exact older live
    · rw [objs] at live
      by_cases here : b = target
      · subst here
        rw [Function.update_self, some.injEq] at live
        subst live
        obtain ⟨wellFormed, ordered⟩ := sound b before was
        exact ⟨change.wellFormed wellFormed, ordered.change change changed.counter⟩
      · rw [Function.update_of_ne here] at live
        exact older live
  | @proto b proto o is live result =>
    obtain ⟨wellFormed, ordered⟩ := sound b o live
    rw [result]
    refine sound.put ?_ ?_
    · exact ⟨wellFormed.keys, wellFormed.inside, wellFormed.injective, wellFormed.counted⟩
    · exact ordered.of_ids rfl (Nat.le_refl _)
  | create is unused result =>
    rw [result]
    exact sound.put (.alloc _ _) ⟨.nil, nofun⟩
  | @free c is result =>
    intro b o' live
    rw [result] at live
    by_cases here : b = c
    · subst here
      rw [free_self] at live
      cases live
    · rw [free_of_ne h here] at live
      rw [result]
      exact sound b o' live

/-- A step of the machine keeps the order of keys sound. -/
theorem step {reply : Reply} (sound : vm.heap.Sound)
    (run : vm.step pool fuel event = some (vm', reply)) : vm'.heap.Sound := by
  by_cases stores : ∃ a si val at_, event = .setProp a si val at_
  · obtain ⟨a, si, val, at_, rfl⟩ := stores
    simp only [PropVM.step, PropVM.setProp, bind_eq_bind, bind_eq_some_iff] at run
    obtain ⟨o, live, run⟩ := run
    split at run
    · cases run
      obtain ⟨wellFormed, ordered⟩ := sound a o live
      exact sound.put wellFormed.setSlot (ordered.of_ids rfl (Nat.le_refl _))
    · simp only [bind_eq_some_iff] at run
      obtain ⟨⟨heap, answered⟩, written, run⟩ := run
      have changed : HeapStep pool vm.heap (.setProp a si val at_) heap :=
        .change rfl (change_lr_set_property written)
      split at run
      · cases run
        rw [PropVM.await_heap]
        exact sound.heapStep changed
      · cases run
        rw [PropVM.fillIc_heap]
        exact sound.heapStep changed
  · refine sound.heapStep (PropVM.step_cases ?_ run).heap
    exact fun a si val at_ is => (stores ⟨a, si, val, at_, is⟩).elim

/-- In every reached state the order of keys is sound. -/
theorem of_reached {atoms : Name → Addr} {events : List PropEvent}
    (reached : Runs.after (PropVM.next pool fuel) (.start atoms) events = some vm) :
    vm.heap.Sound := by
  have all : Runs.Throughout (PropVM.next pool fuel) (fun _ _ => True) (.start atoms) events :=
    .of_forall fun _ _ => trivial
  have initial : (PropVM.start atoms).heap.Sound := fun _ _ live => nomatch live
  have keeps (state : PropVM) (event : PropEvent) (next : PropVM) (sound : state.heap.Sound)
      (_ : True) (taken : state.next pool fuel event = some next) : next.heap.Sound := by
    obtain ⟨reply, run⟩ := PropVM.step_of_next taken
    exact sound.step run
  have kept := Runs.Throughout.invariant_after keeps initial all reached
  exact kept

end Heap.Sound

namespace Heap

/-- `lr_get_own_property_names` answers with the keys in `tab`. -/
def Lists (fuel : Nat) (h : Heap) (a : Addr) (tab : List LRString) : Prop :=
  ∃ h', lr_get_own_property_names fuel h a = some (h', .names tab)

/-- `lr_has_property` finds the key. -/
def Has (fuel : Nat) (h : Heap) (a : Addr) (key : LRString) : Prop :=
  ∃ h', lr_has_property fuel h a key = some (h', .truth true)

/-- `lr_get_property` answers with something else than undefined. -/
def Shows (fuel : Nat) (h : Heap) (a : Addr) (key : LRString) : Prop :=
  ∃ h' reply, lr_get_property fuel h a key = some (h', reply) ∧ reply ≠ .value .undefined

/-- The views of the own keys agree with the enumeration `tab`. -/
structure KeysAgree (fuel : Nat) (h : Heap) (a : Addr) (o : LRObject) (tab : List LRString) :
    Prop where
  listed : h.Lists fuel a tab
  once : tab.Nodup
  ordered : tab.Pairwise o.KeyBefore
  has : ∀ key, h.Has fuel a key ↔ key ∈ tab
  shown : ∀ key, h.Shows fuel a key → key ∈ tab
  deleted : ∀ key ∈ tab, ∃ h' tab', lr_delete_property fuel h a key = some (h', .status 0) ∧
    ¬ h'.Has fuel a key ∧ ¬ h'.Shows fuel a key ∧ h'.Lists fuel a tab' ∧ key ∉ tab'

end Heap

/-- A slot of a small plain object is undefined where the chain lacks its key, and there are no
elements. -/
def LRObject.KeysListed (o : LRObject) : Prop :=
  (∀ key slot, o.fastSlot key = some slot → o.slotValue slot ≠ .undefined →
    (o.find_own_prop key).isSome) ∧
  match o.type with
  | .array (some _) => False
  | .typedArray (some tad) => ∀ key idx, lr_is_numeric_index key = some idx →
      idx < tad.length → tad.elements idx = .undefined
  | _ => True

section Alone

variable {fuel : Nat} {h : Heap} {a : Addr} {o : LRObject} {key : LRString}

section

variable (live : h.objs a = some o) (notProxy : o.type.isProxy = false)
include live notProxy

theorem lr_has_property_of_not_proxy :
    lr_has_property fuel h a key =
      match o.find_own_prop key with
      | some _ => some (h, .truth true)
      | none => protoHas h key fuel o.proto := by
  simp only [lr_has_property, live, bind_eq_bind, bind_some]
  cases type : o.type with
  | proxy data => simp [type, LRObjectType.isProxy] at notProxy
  | _ => rfl

theorem lr_delete_property_of_not_proxy :
    lr_delete_property fuel h a key = some (lr_object_delete_own_prop h a o key) := by
  simp only [lr_delete_property, live, bind_eq_bind, bind_some]
  cases type : o.type with
  | proxy data => simp [type, LRObjectType.isProxy] at notProxy
  | _ => rfl

theorem lr_get_own_property_names_of_not_proxy :
    lr_get_own_property_names fuel h a = some (h, .names o.ownNames) := by
  simp only [lr_get_own_property_names, live, bind_eq_bind, bind_some]
  cases type : o.type with
  | proxy data => simp [type, LRObjectType.isProxy] at notProxy
  | _ => rfl

theorem lists_iff {tab : List LRString} : h.Lists fuel a tab ↔ tab = o.ownNames := by
  simp [Heap.Lists, lr_get_own_property_names_of_not_proxy live notProxy, eq_comm]

theorem has_iff
    (root : o.proto.isObject = false) : h.Has fuel a key ↔ (o.find_own_prop key).isSome := by
  have walk : protoHas h key fuel o.proto = some (h, .truth false) := by
    cases proto : o.proto with
    | object p => simp [proto, LRValue.isObject] at root
    | _ => cases fuel <;> rfl
  rw [Heap.Has, lr_has_property_of_not_proxy live notProxy]
  cases found : o.find_own_prop key with
  | some prop => simp
  | none => simp [walk]

end

/-- What a read shows without a prototype is an element or an own property. -/
theorem shown_cases (inv : o.WellFormed) (live : h.objs a = some o)
    (notProxy : o.type.isProxy = false) (root : o.proto.isObject = false)
    (shows_ : h.Shows fuel a key) :
    (∃ v, fastGet o key = some v) ∨ (∃ v, o.dense key = some v ∧ v ≠ .undefined) ∨
      (o.find_own_prop key).isSome := by
  obtain ⟨h', reply, read, visible⟩ := shows_
  cases fast : fastGet o key with
  | some v => exact Or.inl ⟨v, rfl⟩
  | none =>
    rw [lr_get_property_of_not_fast live notProxy fast] at read
    refine Or.inr ?_
    cases dense : o.dense key with
    | some v =>
      rw [dense] at read
      cases read
      exact Or.inl ⟨v, rfl, fun undefined => visible (by rw [undefined])⟩
    | none =>
      rw [dense] at read
      dsimp only [slowGet] at read
      refine Or.inr ?_
      split at read
      · next cached hit =>
          obtain ⟨prop, member, rfl, _⟩ := Heap.shape_cache_lookup_some live hit
          rw [find_of_mem inv member]
          rfl
      · split at read
        · next prop found => rw [found]; rfl
        · have walk : protoGet h (.object a) key fuel o.proto =
              some (h, .value .undefined) := by
            cases proto : o.proto with
            | object p => simp [proto, LRValue.isObject] at root
            | _ => cases fuel <;> rfl
          rw [walk] at read
          cases read
          exact (visible rfl).elim

theorem shows_of_fast (live : h.objs a = some o) {v : LRValue} (fast : fastGet o key = some v) :
    h.Shows fuel a key := by
  refine ⟨h, .value v, by simp [lr_get_property, live, fast], ?_⟩
  have defined := (filter_eq_some_iff.mp fast).2
  simpa using defined

theorem shows_of_dense (live : h.objs a = some o) (notProxy : o.type.isProxy = false)
    (notFast : fastGet o key = none) {v : LRValue} (dense : o.dense key = some v)
    (defined : v ≠ .undefined) : h.Shows fuel a key := by
  refine ⟨h, .value v, ?_, by simpa using defined⟩
  rw [lr_get_property_of_not_fast live notProxy notFast, dense]

def LRObject.deleted (o : LRObject) (key : LRString) : LRObject :=
  ((o.unlink key).mirror key .undefined).bumpVersion

theorem lr_delete_property_own (live : h.objs a = some o) (notProxy : o.type.isProxy = false)
    (found : (o.find_own_prop key).isSome) : ∃ h', h'.objs a = some (o.deleted key) ∧
      lr_delete_property fuel h a key = some (h', .status 0) := by
  obtain ⟨prop, found⟩ := isSome_iff_exists.mp found
  refine ⟨(h.shape_cache_drop a key).put a (o.deleted key), Heap.put_self .., ?_⟩
  rw [lr_delete_property_of_not_proxy live notProxy, lr_object_delete_own_prop, found]
  rfl

/-- A deleted key is not read on the fast path. -/
theorem fastGet_deleted (inv : o.WellFormed) : fastGet (o.deleted key) key = none := by
  have inv' : (o.deleted key).WellFormed := inv.unlink.mirror.bumpVersion
  cases recorded : o.shape_get_slot key with
  | none =>
    have unrecorded : (o.deleted key).shape_get_slot key = none := by
      simpa [deleted] using recorded
    rw [fastGet, fastSlot, slotInside_eq inv', unrecorded]
    simp
  | some slot =>
    have recorded' : (o.deleted key).shape_get_slot key = some slot := by
      simpa [deleted] using recorded
    have cleared : (o.deleted key).slotValue slot = .undefined := by
      rw [deleted, slotValue_bumpVersion,
        slotValue_mirror inv.unlink]
      exact if_pos recorded
    rw [fastGet_eq inv' recorded', if_neg fun both => both.2 cleared]

end Alone

/-- Nothing is visible beside the chain exactly where all slots and elements of
missing keys are undefined. -/
theorem LRObject.keysListed_iff {o : LRObject} : o.KeysListed ↔
    (∀ key v, fastGet o key = some v → (o.find_own_prop key).isSome) ∧
      ∀ key v, o.dense key = some v → v = .undefined := by
  refine and_congr ?_ ?_
  · constructor
    · intro listed key v fast
      obtain ⟨found, defined⟩ := filter_eq_some_iff.mp fast
      obtain ⟨slot, recorded, rfl⟩ := map_eq_some_iff.mp found
      exact listed key slot recorded (by simpa using defined)
    · intro listed key slot recorded defined
      refine listed key (o.slotValue slot) ?_
      rw [fastGet, recorded]
      simpa using defined
  · cases type : o.type with
    | array data =>
      cases data with
      | none => simp [dense, type, denseGet]
      | some ad =>
        refine ⟨False.elim, fun undefined => ?_⟩
        have noIndex : lr_is_numeric_index ⟨"length", 0⟩ = none := by decide
        have length := undefined ⟨"length", 0⟩ (.int32 (castInt32 ad.length))
        simp [dense, type, denseGet, noIndex] at length
    | typedArray data =>
      cases data with
      | none => simp [dense, type]
      | some tad =>
        simp only [dense, type]
        constructor
        · intro empty key v dense
          obtain ⟨idx, index, rfl⟩ := map_eq_some_iff.mp dense
          split
          · next inside => exact empty key idx index inside
          · rfl
        · intro undefined key idx index inside
          refine undefined key (tad.elements idx) ?_
          rw [index, map_some, if_pos inside]
    | _ => simp [dense, type]

/-- Where no object is made at an address that the shape cache remembers, no lookup reads a freed
property, and the views of the own keys of an object that is no proxy agree exactly if no key is
visible beside the chain. -/
theorem key_views_agree_iff (pool : Nat → Name) (fuel fuel' : Nat) (atoms : Name → Addr)
    (events : List PropEvent) (vm : PropVM) (a : Addr) (o : LRObject)
    (elsewhere : Runs.Throughout (PropVM.next pool fuel) PropVM.MadeElsewhere (.start atoms) events)
    (reached : Runs.after (PropVM.next pool fuel) (.start atoms) events = some vm)
    (live : vm.obj a = some o) (notProxy : o.type.isProxy = false)
    (root : o.proto.isObject = false) :
    vm.heap.EntriesLive a ∧ ((∃ tab, vm.heap.KeysAgree fuel' a o tab) ↔ o.KeysListed) := by
  refine ⟨PropVM.entriesLive_of_reached elsewhere reached, ?_⟩
  obtain ⟨inv, ordered⟩ := Heap.Sound.of_reached reached a o live
  rw [LRObject.keysListed_iff]
  constructor
  · rintro ⟨tab, agree⟩
    obtain rfl := (lists_iff live notProxy).mp agree.listed
    refine ⟨fun key v fast => ?_, fun key v dense => ?_⟩
    · exact LRObject.mem_ownNames.mp (agree.shown key (shows_of_fast live fast))
    · -- a visible element survives the deletion of its key
      by_contra defined
      have notSmall (o' : LRObject) (type : o'.type = o.type) : fastGet o' key = none := by
        have small : o'.small = false := by
          cases kind : o.type <;>
            simp_all [LRObject.dense, LRObject.small, LRObjectType.isPlain]
        rw [fastGet, LRObject.fastSlot, small]
        rfl
      have shown : vm.heap.Shows fuel' a key :=
        shows_of_dense live notProxy (notSmall o rfl) dense defined
      have found := LRObject.mem_ownNames.mp (agree.shown key shown)
      obtain ⟨h', tab', deletes, _, hidden, _⟩ := agree.deleted key (agree.shown key shown)
      have own : ∃ after, after.objs a = some (o.deleted key) ∧
          lr_delete_property fuel' vm.heap a key = some (after, .status 0) :=
        lr_delete_property_own live notProxy found
      obtain ⟨after, live', deletes'⟩ := own
      rw [deletes, some.injEq, Prod.mk.injEq] at deletes'
      obtain ⟨rfl, -⟩ := deletes'
      have type : (o.deleted key).type = o.type := by simp [LRObject.deleted]
      refine hidden (shows_of_dense live' (type ▸ notProxy) (notSmall _ type) ?_ defined)
      rw [LRObject.dense, type]
      exact dense
  · rintro ⟨slots, elements⟩
    refine ⟨o.ownNames, (lists_iff live notProxy).mpr rfl, ?_,
      LRObject.ownNames_ordered inv ordered,
      fun key => ?_, fun key shows_ => ?_, fun key member => ?_⟩
    · exact o.ownNames_perm.nodup_iff.mpr inv.keys
    · rw [has_iff live notProxy root, LRObject.mem_ownNames]
    · rw [LRObject.mem_ownNames]
      rcases shown_cases inv live notProxy root shows_ with ⟨v, fast⟩ | ⟨v, dense, defined⟩ | found
      · exact slots key v fast
      · exact (defined (elements key v dense)).elim
      · exact found
    · have found := LRObject.mem_ownNames.mp member
      have own : ∃ h', h'.objs a = some (o.deleted key) ∧
          lr_delete_property fuel' vm.heap a key = some (h', .status 0) :=
        lr_delete_property_own live notProxy found
      obtain ⟨h', live', deletes⟩ := own
      have type : (o.deleted key).type = o.type := by simp [LRObject.deleted]
      have proto : (o.deleted key).proto = o.proto := by simp [LRObject.deleted]
      have gone : (o.deleted key).find_own_prop key = none := by
        rw [LRObject.deleted, LRObject.find_bumpVersion, LRObject.find_mirror,
          LRObject.find_unlink, if_pos rfl]
      have inv' : (o.deleted key).WellFormed := inv.unlink.mirror.bumpVersion
      refine ⟨h', _, deletes, ?_, ?_, (lists_iff live' (type ▸ notProxy)).mpr rfl, ?_⟩
      · rw [has_iff live' (type ▸ notProxy) (proto ▸ root), gone]
        exact Bool.false_ne_true
      · intro shows_
        rcases shown_cases inv' live' (type ▸ notProxy) (proto ▸ root) shows_ with
          ⟨v, fast⟩ | ⟨v, dense, defined⟩ | found'
        · cases fast.symm.trans (fastGet_deleted inv)
        · rw [LRObject.dense, type] at dense
          exact defined (elements key v dense)
        · rw [gone] at found'
          cases found'
      · rw [LRObject.mem_ownNames, gone]
        exact Bool.false_ne_true

/-- An object with the accessors `b` and `1`. -/
def twoAccessors : List PropEvent :=
  [.create 1 .plain .null, .accessor 1 ⟨"b", 0⟩ (.object 7) .undefined,
    .accessor 1 ⟨"1", 0⟩ (.object 7) .undefined]

theorem key_views_agree_twoAccessors :
    ∃ vm o tab, Runs.after (PropVM.next (fun _ => "") 0) (.start fun _ => 0) twoAccessors =
      some vm ∧ vm.obj 1 = some o ∧ vm.heap.KeysAgree 0 1 o tab := by
  have elsewhere : Runs.Throughout (PropVM.next (fun _ => "") 0) PropVM.MadeElsewhere
      (.start fun _ => 0) twoAccessors := by
    refine ⟨fun _ _ _ _ _ _ cached => (nomatch cached), fun _ taken => ⟨nofun, fun _ taken' => ?_⟩⟩
    exact ⟨nofun, fun _ _ => trivial⟩
  obtain ⟨tab, agree⟩ := (key_views_agree_iff (fun _ => "") 0 0 (fun _ => 0) twoAccessors _ 1 _
    elsewhere rfl rfl rfl rfl).2.mpr ⟨fun _ _ fast _ => (nomatch fast), trivial⟩
  exact ⟨_, _, tab, rfl, rfl, agree⟩

/-- `a = []; a[0] = 7`: the element is read, but only `length` is listed. -/
theorem elementUnlisted :
    ∃ vm o, Runs.after (PropVM.next (fun _ => "") 0) (.start fun _ => 0)
        [.create 1 (.array (some ⟨0, fun _ => .undefined⟩)) .null,
          .set 1 ⟨"length", 0⟩ (.int32 0) 90, .setIndex 1 0 (.int32 7) 100] = some vm ∧
      vm.obj 1 = some o ∧ ¬ ∃ tab, vm.heap.KeysAgree 0 1 o tab := by
  refine ⟨_, _, rfl, rfl, ?_⟩
  rintro ⟨tab, agree⟩
  have shown := agree.shown ⟨"0", 0⟩ ⟨_, .value (.int32 7), rfl, by decide⟩
  rw [(lists_iff rfl rfl).mp agree.listed, LRObject.mem_ownNames] at shown
  revert shown
  decide

end LRJS
