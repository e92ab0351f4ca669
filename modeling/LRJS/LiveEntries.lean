import LRJS.PropertySteps
import LRJS.Library.Runs

/-!
# Live entries of the shape cache

An entry of `shape_cache` points to a property of an object.  Deleting the property drops the entry,
freeing the object does not, so an object at a reused address may find entries of the former one,
which point to freed properties.  Where no object is made at an address that an entry remembers,
every entry of a live object points to a property that the object still has.
-/

namespace LRJS

open List Option LRObject

/-- No entry remembers the address. -/
def Heap.Unremembered (h : Heap) (a : Addr) : Prop :=
  ∀ i entry, h.shape_cache i = some entry → entry.obj ≠ a

/-- No lookup for the object at `a` reads a freed property: each entry lies where it is looked up,
and the object still has the property that it points to. -/
def Heap.EntriesLive (h : Heap) (a : Addr) : Prop :=
  ∀ i entry o, h.shape_cache i = some entry → entry.obj = a → h.objs a = some o →
    i = Heap.shape_cache_index a entry.prop ∧
      ∃ prop ∈ o.prop_hash, prop.id = entry.prop_ptr ∧ prop.key = entry.prop

theorem LRObject.key_of_find {o : LRObject} {key : LRString} {prop : LRProperty}
    (found : o.find_own_prop key = some prop) : prop.key = key := by
  simpa using find?_some found

/-- Every property is still there, if with another value or other flags. -/
def LRObject.Retained (o o' : LRObject) : Prop :=
  ∀ prop ∈ o.prop_hash, ∃ prop' ∈ o'.prop_hash, prop'.id = prop.id ∧ prop'.key = prop.key

namespace LRObject.Retained

variable {o o' : LRObject} {key : LRString} {update : LRProperty → LRProperty}

theorem of_chain (chain : o'.prop_hash = o.prop_hash) : o.Retained o' :=
  fun prop member => ⟨prop, chain ▸ member, rfl, rfl⟩

theorem of_link {prop : LRProperty} (chain : o'.prop_hash = prop :: o.prop_hash) : o.Retained o' :=
  fun old member => ⟨old, chain ▸ mem_cons_of_mem _ member, rfl, rfl⟩

theorem updateProp (same : ∀ prop, (update prop).id = prop.id ∧ (update prop).key = prop.key) :
    o.Retained (o.updateProp key update) := by
  intro prop member
  refine ⟨if prop.key = key then update prop else prop, mem_map_of_mem member, ?_⟩
  split
  · exact same prop
  · exact ⟨rfl, rfl⟩

theorem mirrored {val : LRValue} (retained : o.Retained o') : o.Retained (o'.mirror key val) := by
  intro prop member
  rw [prop_hash_mirror]
  exact retained prop member

theorem setValue {val : LRValue} : o.Retained (o.setValue key val) :=
  updateProp fun _ => ⟨rfl, rfl⟩

theorem mergeAccessor {getter setter : LRValue} :
    o.Retained (o.mergeAccessor key getter setter) :=
  updateProp fun _ => ⟨rfl, rfl⟩

theorem demote {getter setter : LRValue} : o.Retained (o.demote key getter setter) :=
  updateProp fun _ => ⟨rfl, rfl⟩

end LRObject.Retained

namespace Heap.EntriesLive

variable {h h' : Heap} {a b : Addr} {o o' : LRObject} {key : LRString}

theorem of_unremembered (unremembered : h.Unremembered a) : h.EntriesLive a :=
  fun i entry _ cached here _ => (unremembered i entry cached here).elim

section

variable (entries : h.EntriesLive b)
include entries

theorem put (live : h.objs a = some o) (retained : o.Retained o') :
    (h.put a o').EntriesLive b := by
  intro i entry after cached here live'
  by_cases same : b = a
  · subst same
    obtain rfl : o' = after := by simpa using live'
    obtain ⟨index, prop, member, id, named⟩ := entries i entry o cached here live
    obtain ⟨prop', member', id', named'⟩ := retained prop member
    exact ⟨index, prop', member', id'.trans id, named'.trans named⟩
  · rw [Heap.put_of_ne h o' same] at live'
    exact entries i entry after cached here live'

theorem update {prop : LRProperty} (owns : ∀ o, h.objs a = some o → ∃ prop' ∈ o.prop_hash,
    prop'.id = prop.id ∧ prop'.key = key) : (h.shape_cache_update a key prop).EntriesLive b := by
  intro i entry o cached here live
  simp only [shape_cache_update, Function.update_apply] at cached
  split at cached
  · next index =>
      cases cached
      subst here
      exact ⟨index, owns o live⟩
  · exact entries i entry o cached here live

/-- A deletion drops the entry of the deleted property. -/
theorem delete_own (live : h.objs a = some o) :
    (lr_object_delete_own_prop h a o key).1.EntriesLive b := by
  unfold lr_object_delete_own_prop
  split
  · exact entries
  · have kept {i : Nat} {entry : LRShapeCacheEntry}
        (cached : (h.shape_cache_drop a key).shape_cache i = some entry) :
        h.shape_cache i = some entry ∧
          ¬ (i = shape_cache_index a key ∧ entry.obj = a ∧ entry.prop = key) := by
      unfold shape_cache_drop at cached
      split at cached
      · split at cached
        · simp only [Function.update_apply] at cached
          split at cached
          · cases cached
          · next elsewhere => exact ⟨cached, fun both => elsewhere both.1⟩
        · next found other =>
            refine ⟨cached, ?_⟩
            rintro ⟨rfl, is⟩
            rw [found, some.injEq] at cached
            exact other (cached ▸ is)
      · next empty =>
          refine ⟨cached, ?_⟩
          rintro ⟨rfl, _⟩
          cases empty.symm.trans cached
    intro i entry after cached here live'
    obtain ⟨was, notDropped⟩ := kept cached
    by_cases same : b = a
    · subst same
      obtain ⟨index, prop, member, id, named⟩ := entries i entry o was here live
      have other : entry.prop ≠ key := fun is => notDropped ⟨is ▸ index, here, is⟩
      obtain rfl : ((o.unlink key).mirror key .undefined).bumpVersion = after := by
        simpa using live'
      refine ⟨index, prop, ?_, id, named⟩
      rw [prop_hash_bumpVersion, prop_hash_mirror]
      exact mem_filter.mpr ⟨member, by simpa [named] using other⟩
    · rw [Heap.put_of_ne _ _ same] at live'
      refine entries i entry after was here ?_
      rw [← live']
      unfold shape_cache_drop
      split
      · split <;> rfl
      · rfl

end

end Heap.EntriesLive

/-! ## Operations -/

section Operations

variable {fuel : Nat} {h h' : Heap} {a at_ b : Addr} {o : LRObject} {key : LRString}
variable {val : LRValue} {reply : Reply} (entries : h.EntriesLive b)
include entries

theorem slowGet_entries (live : h.objs a = some o)
    (run : slowGet fuel h a o key = some (h', reply)) : h'.EntriesLive b := by
  unfold slowGet at run
  split at run
  · cases run
    exact entries
  · split at run
    · next prop found =>
        cases run
        refine entries.update fun o' live' => ?_
        obtain rfl : o = o' := some.inj (live.symm.trans live')
        exact ⟨prop, mem_of_find found, rfl, key_of_find found⟩
    · exact protoGet_heap run ▸ entries

theorem lr_get_property_entries (run : lr_get_property fuel h a key = some (h', reply)) :
    h'.EntriesLive b := by
  simp only [lr_get_property, bind_eq_bind, bind_eq_some_iff] at run
  obtain ⟨o, live, run⟩ := run
  split at run
  · cases run
    exact entries
  · split at run
    · exact proxyGet_heap run ▸ entries
    · split at run
      · cases run
        exact entries
      · exact slowGet_entries entries live run
    · split at run
      · cases run
        exact entries
      · exact slowGet_entries entries live run
    · exact slowGet_entries entries live run

theorem lr_get_property_uint32_entries {idx : Nat}
    (run : lr_get_property_uint32 fuel h a idx = some (h', reply)) : h'.EntriesLive b := by
  simp only [lr_get_property_uint32, bind_eq_bind, bind_eq_some_iff] at run
  obtain ⟨o, _, run⟩ := run
  split at run
  · split at run
    · cases run
      exact entries
    · exact lr_get_property_entries entries run
  · exact lr_get_property_entries entries run

theorem newProperty_entries {o₀ : LRObject} (live : h.objs a = some o₀)
    (chain : o.prop_hash = o₀.prop_hash) :
    (newProperty h a o key val at_).1.EntriesLive b := by
  have counted : ({ h with next_prop := h.next_prop + 1 } : Heap).EntriesLive b := entries
  refine counted.put live fun prop member => ⟨prop, ?_, rfl, rfl⟩
  rw [prop_hash_shape_add_prop]
  exact mem_cons_of_mem _ (chain ▸ member)

/-- Storing a property leaves no entry without its property. -/
theorem storeProperty_entries {o₀ : LRObject} (live : h.objs a = some o₀)
    (chain : o.prop_hash = o₀.prop_hash)
    (run : storeProperty fuel h a o key val at_ = some (h', reply)) : h'.EntriesLive b := by
  unfold storeProperty at run
  split at run
  · next prop found =>
      have member := mem_of_find found
      have named : prop.key = key := key_of_find found
      split at run
      · cases run
        exact entries.put live (.of_chain chain)
      · cases run
        have stored : o.Retained ((o.setValue key val).mirror key val) :=
          .mirrored .setValue
        have written : (h.put a ((o.setValue key val).mirror key val)).EntriesLive b := by
          refine entries.put live fun old before => ?_
          exact stored old (chain ▸ before)
        refine written.update fun o' live' => ?_
        obtain rfl : (o.setValue key val).mirror key val = o' := by simpa using live'
        obtain ⟨prop', member', id, same⟩ := stored prop member
        exact ⟨prop', member', id, same.trans named⟩
  · simp only [bind_eq_bind, bind_eq_some_iff] at run
    obtain ⟨setter, _, run⟩ := run
    split at run
    · cases run
      exact entries.put live (.of_chain chain)
    · cases run
      refine (newProperty_entries entries live chain).update fun o' live' => ?_
      have made : (o.link ⟨h.next_prop, key, val, .undefined, .normal⟩).shape_add_prop key val at_ =
          o' := by
        simpa [newProperty] using live'
      subst made
      refine ⟨⟨h.next_prop, key, val, .undefined, .normal⟩, ?_, rfl, rfl⟩
      rw [prop_hash_shape_add_prop]
      exact mem_cons_self

theorem lr_set_property_direct_entries {obj : LRValue}
    (run : lr_set_property_direct fuel h obj key val at_ = some (h', reply)) :
    h'.EntriesLive b := by
  cases obj with
  | object target =>
    simp only [lr_set_property_direct, bind_eq_bind, bind_eq_some_iff] at run
    obtain ⟨o, live, run⟩ := run
    split at run
    · split at run
      · cases run
        exact entries
      · cases run
        exact entries.put live .setValue
    · simp only [bind_eq_some_iff] at run
      obtain ⟨setter, _, run⟩ := run
      split at run
      · cases run
        exact entries
      · cases run
        exact newProperty_entries entries live rfl
  | _ =>
    cases run
    exact entries

/-- A write leaves no entry without its property. -/
theorem lr_set_property_entries (run : lr_set_property fuel h a key val at_ = some (h', reply)) :
    h'.EntriesLive b := by
  simp only [lr_set_property, bind_eq_bind, bind_eq_some_iff] at run
  obtain ⟨o, live, run⟩ := run
  split at run
  · cases run
    exact entries.put live (.of_chain rfl)
  · split at run
    · next data proxy =>
        cases data with
        | none =>
          cases run
          exact entries
        | some pd =>
          rcases trapOr_cases run with rfl | forwarded
          · exact entries
          · exact lr_set_property_direct_entries entries forwarded
    · split at run
      · split at run
        · cases run
          exact entries.put live (.of_chain rfl)
        · cases run
          exact entries
      · exact storeProperty_entries entries live (by rfl) run
    · exact storeProperty_entries entries live (by rfl) run
    · exact storeProperty_entries entries live (by rfl) run

theorem lr_set_property_uint32_entries {idx : Nat}
    (run : lr_set_property_uint32 fuel h a idx val at_ = some (h', reply)) : h'.EntriesLive b := by
  simp only [lr_set_property_uint32, bind_eq_bind, bind_eq_some_iff] at run
  obtain ⟨o, live, run⟩ := run
  split at run
  · cases run
    exact entries.put live (.of_chain rfl)
  · exact lr_set_property_entries entries run

/-- Defining an accessor leaves no entry without its property. -/
theorem lr_set_accessor_property_entries {getter setter : LRValue}
    (run : lr_set_accessor_property h a key getter setter = some (h', reply)) :
    h'.EntriesLive b := by
  simp only [lr_set_accessor_property, bind_eq_bind, bind_eq_some_iff] at run
  obtain ⟨o, live, run⟩ := run
  have redefined {o' : LRObject} {prop : LRProperty} (found : o.find_own_prop key = some prop)
      (retained : o.Retained o') :
      ((h.put a o').shape_cache_update a key prop).EntriesLive b := by
    refine (entries.put live retained).update fun after live' => ?_
    obtain rfl : o' = after := by simpa using live'
    obtain ⟨prop', member, id, same⟩ := retained prop (mem_of_find found)
    exact ⟨prop', member, id, same.trans (key_of_find found)⟩
  split at run
  · next prop found =>
      split at run
      · cases run
        exact redefined found .mergeAccessor
      · cases run
        exact redefined found (.mirrored .demote)
  · cases run
    have counted : ({ h with next_prop := h.next_prop + 1 } : Heap).EntriesLive b := entries
    refine (counted.put live (.of_link rfl)).update fun after live' => ?_
    obtain rfl : o.link ⟨h.next_prop, key, getter, setter, accessorFlags getter setter⟩ =
        after := by simpa using live'
    exact ⟨_, mem_cons_self, rfl, rfl⟩

theorem lr_delete_property_entries (run : lr_delete_property fuel h a key = some (h', reply)) :
    h'.EntriesLive b := by
  simp only [lr_delete_property, bind_eq_bind, bind_eq_some_iff] at run
  obtain ⟨o, live, run⟩ := run
  have deleted {t : Addr} {o : LRObject} (live : h.objs t = some o)
      (run : lr_object_delete_own_prop h t o key = (h', reply)) : h'.EntriesLive b := by
    have kept : (lr_object_delete_own_prop h t o key).1.EntriesLive b := entries.delete_own live
    rwa [run] at kept
  split at run
  · cases run
    exact entries
  · next pd proxy =>
      rcases trapOr_cases run with rfl | forwarded
      · exact entries
      · obtain ⟨target, handler⟩ := pd
        cases target with
        | object t =>
          simp only [lr_delete_property_direct, bind_eq_bind, bind_eq_some_iff] at forwarded
          obtain ⟨o', live', run⟩ := forwarded
          exact deleted live' (some.inj run)
        | _ =>
          cases forwarded
          exact entries
  · exact deleted live (some.inj run)

end Operations

/-! ## Runs -/

namespace PropVM

variable {pool : Nat → Name} {fuel : Nat} {vm vm' : PropVM} {event : PropEvent} {b : Addr}

/-- No object is made at an address that an entry of the shape cache remembers. -/
def MadeElsewhere (vm : PropVM) (event : PropEvent) : Prop :=
  ∀ a type proto, event = .create a type proto → vm.heap.Unremembered a

theorem readDone_heap {always : Bool} {a : Addr} {si : Nat} {v : LRValue} :
    (vm.readDone pool always a si v).heap = vm.heap := by
  unfold readDone
  split
  · exact fillIc_heap
  · rfl

theorem readMiss_heap {always : Bool} {frame : PropFrame} {a : Addr} {si : Nat} {reply : Reply}
    (run : vm.readMiss pool fuel always frame a si = some (vm', reply)) :
    lr_get_property fuel vm.heap a (vm.atom pool si) = some (vm'.heap, reply) := by
  simp only [readMiss, bind_eq_bind, bind_eq_some_iff] at run
  obtain ⟨⟨heap, fetched⟩, read, run⟩ := run
  split at run
  · cases run
    rw [read, readDone_heap]
  · cases run
    rw [read, await_heap]

theorem resume_heap {v : LRValue} (run : vm.resume pool v = some vm') : vm'.heap = vm.heap := by
  unfold resume at run
  split at run
  · cases run
    exact readDone_heap
  · cases run
    exact readDone_heap
  · cases run
    exact fillIc_heap
  · cases run
    exact fillElem_heap
  · cases run
    rfl
  · cases run

/-- Where objects and properties are made at fresh addresses, no entry is left without its
property. -/
theorem step_entries {reply : Reply} (entries : ∀ b, vm.heap.EntriesLive b)
    (elsewhere : vm.MadeElsewhere event) (run : vm.step pool fuel event = some (vm', reply)) :
    vm'.heap.EntriesLive b := by
  have here := entries b
  cases event with
  | set a key val at_ | define a key val at_ | setElem a key val at_ =>
    exact lr_set_property_entries here (engine_cases run).1
  | accessor a key getter setter =>
    exact lr_set_accessor_property_entries here (engine_cases run).1
  | get a key => exact lr_get_property_entries here (engine_cases run).1
  | delete a key => exact lr_delete_property_entries here (engine_cases run).1
  | setProto a proto =>
    have written := (engine_cases run).1
    simp only [lr_set_prototype, bind_eq_bind, bind_eq_some_iff, some.injEq,
      Prod.mk.injEq] at written
    obtain ⟨o, live, result, _⟩ := written
    rw [← result]
    exact here.put live (.of_chain rfl)
  | create a type proto =>
    simp only [step] at run
    split at run
    · cases run
      intro i entry o cached same live
      by_cases made : b = a
      · exact (elsewhere a type proto rfl i entry cached (same.trans made)).elim
      · dsimp only at live
        rw [lr_new_object, Heap.put_of_ne _ _ made] at live
        exact here i entry o cached same live
    · cases run
  | free a =>
    cases run
    intro i entry o cached same live
    by_cases freed : b = a
    · dsimp only at live
      rw [freed, free_self] at live
      cases live
    · dsimp only at live
      rw [free_of_ne _ freed] at live
      exact here i entry o cached same live
  | getProp a si =>
    simp only [step, getProp, bind_eq_bind, bind_eq_some_iff] at run
    obtain ⟨o, _, run⟩ := run
    split at run
    · cases run
      exact here
    · split at run
      · split at run
        · cases run
          exact here
        · exact lr_get_property_entries here (readMiss_heap run)
      · exact lr_get_property_entries here (readMiss_heap run)
  | loadPropAdd a si =>
    simp only [step, loadPropAdd, bind_eq_bind, bind_eq_some_iff] at run
    obtain ⟨o, _, run⟩ := run
    split at run
    · cases run
      exact here
    · exact lr_get_property_entries here (readMiss_heap run)
  | setProp a si val at_ =>
    simp only [step, setProp, bind_eq_bind, bind_eq_some_iff] at run
    obtain ⟨o, live, run⟩ := run
    split at run
    · cases run
      exact here.put live (.of_chain rfl)
    · simp only [bind_eq_some_iff] at run
      obtain ⟨⟨heap, answered⟩, written, run⟩ := run
      have kept : heap.EntriesLive b := lr_set_property_entries here written
      split at run
      · cases run
        rw [await_heap]
        exact kept
      · cases run
        rw [fillIc_heap]
        exact kept
  | getElem a key =>
    simp only [step, getElem, bind_eq_bind, bind_eq_some_iff] at run
    obtain ⟨o, _, run⟩ := run
    split at run
    · cases run
      exact here
    · simp only [bind_eq_some_iff] at run
      obtain ⟨⟨heap, fetched⟩, read, run⟩ := run
      have kept : heap.EntriesLive b := lr_get_property_entries here read
      split at run
      · cases run
        rw [fillElem_heap]
        exact kept
      · cases run
        rw [await_heap]
        exact kept
  | getIndex a idx =>
    simp only [step] at run
    split at run
    · simp only [getIndex, bind_eq_bind, bind_eq_some_iff] at run
      obtain ⟨o, _, run⟩ := run
      split at run
      · split at run
        · cases run
          exact here
        · exact lr_get_property_uint32_entries here (engine_cases run).1
      · exact lr_get_property_uint32_entries here (engine_cases run).1
    · cases run
  | setIndex a idx val at_ =>
    simp only [step] at run
    split at run
    · simp only [setIndex, bind_eq_bind, bind_eq_some_iff] at run
      obtain ⟨o, live, run⟩ := run
      split at run
      · split at run
        · cases run
          exact here.put live (.of_chain rfl)
        · exact lr_set_property_uint32_entries here (engine_cases run).1
      · exact lr_set_property_uint32_entries here (engine_cases run).1
    · cases run
  | returned v =>
    simp only [step, map_eq_some_iff, Prod.mk.injEq] at run
    obtain ⟨resumed, ran, rfl, _⟩ := run
    rw [resume_heap ran]
    exact here
  | evalNode =>
    cases run
    exact here
  | evalDone =>
    simp only [step] at run
    split at run
    · cases run
      exact here
    · cases run

/-- In a run that makes no object at a remembered address, no lookup reads a freed property. -/
theorem entriesLive_of_reached {atoms : Name → Addr} {events : List PropEvent}
    (elsewhere : Runs.Throughout (PropVM.next pool fuel) MadeElsewhere (.start atoms) events)
    (reached : Runs.after (PropVM.next pool fuel) (.start atoms) events = some vm) :
    vm.heap.EntriesLive b := by
  have initial : ∀ b, (PropVM.start atoms).heap.EntriesLive b :=
    fun _ => .of_unremembered fun _ _ cached => nomatch cached
  have keeps (state : PropVM) (event : PropEvent) (next : PropVM)
      (entries : ∀ b, state.heap.EntriesLive b) (met : state.MadeElsewhere event)
      (taken : state.next pool fuel event = some next) (b : Addr) : next.heap.EntriesLive b := by
    obtain ⟨reply, run⟩ := step_of_next taken
    exact step_entries entries met run
  have all := Runs.Throughout.invariant_after keeps initial elsewhere reached
  exact all b

end PropVM

end LRJS
