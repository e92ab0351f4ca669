import LRJS.InlineCache

/-!
# Accessors

Once `lr_set_accessor_property` has made a property an accessor, all accesses go through it as long
as the shape does not record the key: a recorded slot is read and written without a look at the
property.  The element cache replays what a getter returned, so the values of the accessor must not
have been remembered either.
-/

namespace LRJS

open List Option Function LRObject

namespace PropEvent

def reads (pool : Nat → Name) (vm : PropVM) : PropEvent → Option (Addr × LRString)
  | .get a key | .getElem a key => some (a, key)
  | .getProp a si | .loadPropAdd a si => some (a, vm.atom pool si)
  | .getIndex a idx => some (a, vm.heap.atom (toString idx))
  | _ => none

def writes (pool : Nat → Name) (vm : PropVM) : PropEvent → Option (Addr × LRString × LRValue)
  | .set a key val _ | .define a key val _ | .setElem a key val _ => some (a, key, val)
  | .setProp a si val _ => some (a, vm.atom pool si, val)
  | .setIndex a idx val _ => some (a, vm.heap.atom (toString idx), val)
  | _ => none

def Removes (vm : PropVM) (a : Addr) (key : LRString) : PropEvent → Prop
  | .delete b key' => vm.heap.reached b = a ∧ key' = key
  | .free b => b = a
  | _ => False

/-- The event lets the element cache remember what the accessor returned, or the
getter that is no function and not undefined. -/
def Remembers (vm : PropVM) (a : Addr) (key : LRString) : PropEvent → Prop
  | .returned v => v ≠ .undefined ∧ vm.stack.head? = some (.getElem a key)
  | .getElem b key' => b = a ∧ key' = key ∧ ∃ o prop, vm.obj a = some o ∧
      o.find_own_prop key = some prop ∧ prop.flags.getter = false ∧ prop.value ≠ .undefined
  | _ => False

end PropEvent

namespace PropVM

def AccessorHonoured (pool : Nat → Name) (fuel : Nat) (a : Addr) (key : LRString)
    (vm : PropVM) (event : PropEvent) : Prop :=
  ∃ o prop, vm.obj a = some o ∧ o.find_own_prop key = some prop ∧
    prop.flags.accessor = true ∧ ∀ vm' reply, vm.step pool fuel event = some (vm', reply) →
      (event.reads pool vm = some (a, key) → reply = lr_property_get (.object a) prop) ∧
      ∀ val, event.writes pool vm = some (a, key, val) →
        lr_property_try_set_accessor (.object a) prop val = some reply ∧
          vm'.heap.objs = vm.heap.objs

structure Definable (vm : PropVM) (a : Addr) (key : LRString) (o : LRObject) : Prop where
  live : vm.obj a = some o
  unrecorded : o.shape_get_slot key = none
  notProxy : o.type.isProxy = false
  outside : ¬ o.type.Indexes key
  uncached : ∀ ec, vm.RemembersElem ec → ¬ (ec.obj = a ∧ ec.key = key)

/-- No shape is made at a remembered address, the property stays, and the element
cache remembers no value of the accessor. -/
structure Careful (a : Addr) (key : LRString) (vm : PropVM) (event : PropEvent) : Prop where
  fresh : vm.ShapesFresh event
  keeps : ¬ event.Removes vm a key
  forgets : ¬ event.Remembers vm a key

end PropVM

structure LRObject.Guarded (o : LRObject) (key : LRString) : Prop where
  accessor : ∃ prop, o.find_own_prop key = some prop ∧ prop.flags.accessor = true
  unrecorded : o.shape_get_slot key = none
  notProxy : o.type.isProxy = false
  outside : ¬ o.type.Indexes key

namespace ObjChange

variable {o o' : LRObject} {key key' : LRString} {made : Option Addr} {deletes : Bool}
variable {ids : Nat × Nat}

theorem keepsAccessor (change : ObjChange key made deletes ids o o')
    (accessor : ∃ prop, o.find_own_prop key = some prop ∧ prop.flags.accessor = true)
    (unrecorded : o.shape_get_slot key = none) (keeps : deletes = false) :
    (∃ prop, o'.find_own_prop key = some prop ∧ prop.flags.accessor = true) ∧
      o'.shape_get_slot key = none := by
  have notData {o : LRObject} {prop : LRProperty}
      (accessor : ∃ prop, o.find_own_prop key = some prop ∧ prop.flags.accessor = true)
      (found : o.find_own_prop key = some prop) (data : prop.flags.accessor = false) : False := by
    obtain ⟨other, found', isAccessor⟩ := accessor
    rw [found, some.injEq] at found'
    rw [← found', data] at isAccessor
    cases isAccessor
  induction change with
  | elements type _ _ _ ih => exact ih accessor unrecorded
  | same o => exact ⟨accessor, unrecorded⟩
  | slot val recorded => cases recorded.symm.trans unrecorded
  | both val found data | direct val found data => exact (notData accessor found data).elim
  | fresh val isNew allocated numbered =>
    obtain ⟨prop, found, _⟩ := accessor
    cases isNew.symm.trans found
  | @merge o prop getter setter found side =>
    refine ⟨⟨prop.mergeAccessor getter setter, ?_, ?_⟩, unrecorded⟩
    · rw [find_mergeAccessor, found]
      simp
    · simp only [LRPropFlags.accessor, LRProperty.mergeAccessor, Bool.or_eq_true] at side ⊢
      rcases side with getterSide | setterSide
      · exact .inl (.inl getterSide)
      · exact .inr (.inl setterSide)
  | demote getter setter found data => exact (notData accessor found data).elim
  | accessor getter setter isNew defining numbered =>
    obtain ⟨prop, found, _⟩ := accessor
    cases isNew.symm.trans found
  | unlink found deleting => cases deleting.symm.trans keeps

theorem guarded (change : ObjChange key made deletes ids o o') (inv : o.WellFormed)
    (guarded : o.Guarded key') (keeps : key = key' → deletes = false) : o'.Guarded key' := by
  have accessor : (∃ prop, o'.find_own_prop key' = some prop ∧ prop.flags.accessor = true) ∧
      o'.shape_get_slot key' = none := by
    by_cases same : key = key'
    · subst same
      exact change.keepsAccessor guarded.accessor guarded.unrecorded (keeps rfl)
    · have different : key' ≠ key := fun other => same other.symm
      rw [change.find_of_ne different, change.slot_of_ne inv different]
      exact ⟨guarded.accessor, guarded.unrecorded⟩
  exact
    { accessor := accessor.1
      unrecorded := accessor.2
      notProxy := change.isProxy.trans guarded.notProxy
      outside := fun inside => guarded.outside (change.indexes.mp inside) }

end ObjChange

section Guarded

variable {fuel : Nat} {h h' : Heap} {a at_ : Addr} {o : LRObject} {key : LRString}
variable {prop : LRProperty} {val : LRValue} {reply : Reply}

theorem LRObject.Guarded.notFast (guarded : o.Guarded key) : o.fastSlot key = none := by
  rw [fastSlot, slotInside, guarded.unrecorded]
  exact ite_self _

theorem LRObject.Guarded.notArray {idx : Nat} (guarded : o.Guarded key) (small : idx < 2 ^ 31)
    (named : h.atom (toString idx) = key) (ad : LRArrayData) : o.type ≠ .array (some ad) := by
  intro type
  refine guarded.outside ?_
  rw [type, ← named]
  exact .inr (.inr ⟨idx, small, rfl⟩)

theorem shape_cache_misses (inv : o.WellFormed) (live : h.objs a = some o)
    (found : o.find_own_prop key = some prop) (accessor : prop.flags.accessor = true) :
    h.shape_cache_lookup a key = none := by
  cases lookup : h.shape_cache_lookup a key with
  | none => rfl
  | some cached =>
    obtain ⟨other, member, rfl, data, _⟩ := Heap.shape_cache_lookup_some live lookup
    rw [find_of_mem inv member, some.injEq] at found
    rw [← found, data] at accessor
    cases accessor

theorem lr_get_property_guarded (inv : o.WellFormed) (live : h.objs a = some o)
    (guarded : o.Guarded key) (found : o.find_own_prop key = some prop)
    (accessor : prop.flags.accessor = true)
    (run : lr_get_property fuel h a key = some (h', reply)) :
    reply = lr_property_get (.object a) prop := by
  have miss : fastGet o key = none := by
    rw [fastGet, guarded.notFast]
    rfl
  rw [lr_get_property_of_not_fast live guarded.notProxy miss,
      dense_of_outside guarded.outside] at run
  simp only [slowGet, shape_cache_misses inv live found accessor, found, some.injEq,
    Prod.mk.injEq] at run
  exact run.2.symm

/-- A write to a key with an accessor calls the setter and leaves the objects. -/
theorem lr_set_property_guarded (live : h.objs a = some o) (guarded : o.Guarded key)
    (found : o.find_own_prop key = some prop) (accessor : prop.flags.accessor = true)
    (run : lr_set_property fuel h a key val at_ = some (h', reply)) :
    lr_property_try_set_accessor (.object a) prop val = some reply ∧ h'.objs = h.objs := by
  obtain ⟨answer, answered⟩ :
      ∃ answer, lr_property_try_set_accessor (.object a) prop val = some answer := by
    unfold lr_property_try_set_accessor
    rw [if_pos accessor]
    split
    · exact ⟨_, rfl⟩
    · exact ⟨_, rfl⟩
  have stored (run : storeProperty fuel h a o key val at_ = some (h', reply)) :
      lr_property_try_set_accessor (.object a) prop val = some reply ∧ h'.objs = h.objs := by
    simp only [storeProperty, found, answered, some.injEq, Prod.mk.injEq] at run
    obtain ⟨rfl, rfl⟩ := run
    exact ⟨answered, update_eq_self_iff.mpr live.symm⟩
  simp only [lr_set_property, live, bind_eq_bind, bind_some, guarded.notFast] at run
  have outside := guarded.outside
  split at run
  · next data type =>
      have notProxy := guarded.notProxy
      rw [type] at notProxy
      cases notProxy
  · next tad type =>
      simp only [type, LRObjectType.Indexes] at outside
      have notIndex : lr_is_numeric_index key = none := by
        simpa using outside
      rw [notIndex] at run
      exact stored run
  · next ad type =>
      rw [type] at outside
      rw [denseSet_of_not_indexes outside, ← type] at run
      exact stored run
  · exact stored run

theorem lr_set_accessor_property_guards {getter setter : LRValue} (live : h.objs a = some o)
    (unrecorded : o.shape_get_slot key = none) (notProxy : o.type.isProxy = false)
    (outside : ¬ o.type.Indexes key) (side : getter.isObject ∨ setter.isObject)
    (run : lr_set_accessor_property h a key getter setter = some (h', reply)) :
    ∃ o', h'.objs a = some o' ∧ o'.Guarded key := by
  have flags : (accessorFlags getter setter).accessor = true := by
    simpa [LRPropFlags.accessor, accessorFlags] using side
  simp only [lr_set_accessor_property, live, bind_eq_bind, bind_some] at run
  split at run
  · next prop found =>
      split at run
      · next accessor =>
          cases run
          have change : ObjChange key none false (0, 0) o (o.mergeAccessor key getter setter) :=
            .merge getter setter found accessor
          obtain ⟨still, unrecorded'⟩ :=
            change.keepsAccessor ⟨prop, found, accessor⟩ unrecorded rfl
          exact ⟨_, Heap.put_self .., still, unrecorded', notProxy, outside⟩
      · cases run
        let demoted : LRProperty :=
          { prop with value := getter, setter := setter, flags := accessorFlags getter setter }
        refine ⟨_, Heap.put_self .., ⟨demoted, ?_, flags⟩, ?_, ?_, ?_⟩
        · rw [find_bumpVersion, find_mirror, find_demote, found]
          simp [demoted]
        · simpa using unrecorded
        · simpa using notProxy
        · simpa using outside
  · next isNew =>
      cases run
      let made : LRProperty :=
        ⟨h.next_prop, key, getter, setter, accessorFlags getter setter⟩
      refine ⟨_, Heap.put_self .., ⟨made, ?_, flags⟩, unrecorded, notProxy, outside⟩
      rw [find_link, if_pos rfl]

end Guarded

namespace PropVM

variable {pool : Nat → Name} {fuel : Nat} {vm vm' : PropVM} {event : PropEvent}
variable {a : Addr} {o : LRObject} {key : LRString} {reply : Reply}

structure AccessorInv (pool : Nat → Name) (a : Addr) (key : LRString) (vm : PropVM) : Prop where
  ic : vm.IcInv pool
  guarded : ∃ o, vm.obj a = some o ∧ o.Guarded key
  uncached : ∀ ec, vm.RemembersElem ec → ¬ (ec.obj = a ∧ ec.key = key)

/-- A step that does not remove the guarded property leaves the object guarded. -/
theorem guardedStep (inv : vm.IcInv pool) (live : vm.obj a = some o) (guarded : o.Guarded key)
    (keeps : ¬ event.Removes vm a key) {h' : Heap} (step : HeapStep pool vm.heap event h') :
    ∃ o', h'.objs a = some o' ∧ o'.Guarded key := by
  cases step with
  | keeps objs atoms counter => exact ⟨o, objs ▸ live, guarded⟩
  | @change target other touched changed =>
    rcases changed.objs with same | ⟨before, after, wasLive, change, objs⟩
    · exact ⟨o, same ▸ live, guarded⟩
    · by_cases here : a = target
      · subst here
        obtain rfl : o = before := some.inj (live.symm.trans wasLive)
        refine ⟨after, by rw [objs, update_self], ?_⟩
        refine change.guarded (inv.heap.wellFormed live) guarded fun same => ?_
        subst same
        cases event <;> first
          | rfl
          | cases touched
            exact (keeps ⟨rfl, rfl⟩).elim
      · exact ⟨o, by rw [objs, update_of_ne here]; exact live, guarded⟩
  | @proto b proto before is wasLive result =>
    by_cases here : a = b
    · subst here
      obtain rfl : o = before := some.inj (live.symm.trans wasLive)
      refine ⟨{ o with proto := proto }, by rw [result, Heap.put_self], ?_⟩
      exact ⟨guarded.accessor, guarded.unrecorded, guarded.notProxy, guarded.outside⟩
    · exact ⟨o, by rw [result, Heap.put_of_ne _ _ here]; exact live, guarded⟩
  | @create b type proto is unused result =>
    have different : a ≠ b := by
      rintro rfl
      cases live.symm.trans unused
    exact ⟨o, by rw [result, lr_new_object, Heap.put_of_ne _ _ different]; exact live, guarded⟩
  | @free b is result =>
    have different : a ≠ b := by
      rintro rfl
      exact keeps (is ▸ rfl)
    exact ⟨o, by rw [result, free_of_ne _ different]; exact live, guarded⟩

theorem AccessorInv.step (inv : vm.AccessorInv pool a key) (careful : Careful a key vm event)
    (run : vm.step pool fuel event = some (vm', reply)) : vm'.AccessorInv pool a key := by
  obtain ⟨o, live, guarded⟩ := inv.guarded
  have cases_ := step_cases (fun _ _ _ _ _ => icHit_spec inv.ic) run
  refine ⟨inv.ic.step careful.fresh run, guardedStep inv.ic live guarded careful.keeps cases_.heap,
    ?_⟩
  rintro ec ⟨caches, member, ci, remembered⟩
  rcases cases_.layers caches member with before | filled
  · exact inv.uncached ec ⟨caches, before, ci, remembered⟩
  · cases filled with
    | ic si _ =>
      rw [PropCaches.icFill_elem] at remembered
      exact inv.uncached ec ⟨vm.caches, mem_cons_self, ci, remembered⟩
    | elem _ source =>
      rcases PropCaches.elemFill_cases remembered with before | ⟨defined, _, rfl⟩
      · exact inv.uncached ec ⟨vm.caches, mem_cons_self, ci, before⟩
      · rintro ⟨rfl, rfl⟩
        rcases source with ⟨rfl, top⟩ | ⟨rfl, h', read⟩
        · exact careful.forgets ⟨defined, top⟩
        · obtain ⟨prop, found, accessor⟩ := guarded.accessor
          have answer := lr_get_property_guarded (inv.ic.heap.wellFormed live) live guarded found
            accessor read
          refine careful.forgets ⟨rfl, rfl, o, prop, live, found, ?_⟩
          unfold lr_property_get at answer
          split at answer
          · split at answer
            · cases answer
            · cases answer
              exact absurd rfl defined
          · next getter =>
              cases answer
              exact ⟨Bool.eq_false_iff.mpr getter, defined⟩

section Honoured

variable {prop : LRProperty}

theorem icHit_guarded {si : Nat} (inv : vm.AccessorInv pool a key) (live : vm.obj a = some o)
    (guarded : o.Guarded key) (named : vm.atom pool si = key) : vm.caches.icHit o si = none := by
  cases hit : vm.caches.icHit o si with
  | none => rfl
  | some slot =>
    have recorded := (icHit_spec inv.ic a o si slot live hit).2
    rw [named, guarded.unrecorded] at recorded
    cases recorded

theorem elemHit_guarded (inv : vm.AccessorInv pool a key) : vm.caches.elemHit a o key = none := by
  cases hit : vm.caches.elemHit a o key with
  | none => rfl
  | some v =>
    simp only [PropCaches.elemHit, bind_eq_bind, bind_eq_some_iff] at hit
    obtain ⟨ec, remembered, hit⟩ := hit
    split at hit
    · next matches_ =>
        have uncached := inv.uncached ec ⟨vm.caches, mem_cons_self, _, remembered⟩
        exact (uncached ⟨matches_.2.1, matches_.2.2.1⟩).elim
    · cases hit

section

variable (inv : vm.AccessorInv pool a key) (live : vm.obj a = some o) (guarded : o.Guarded key)
    (found : o.find_own_prop key = some prop) (accessor : prop.flags.accessor = true)
    (run : vm.step pool fuel event = some (vm', reply))
include inv live guarded found accessor run

/-- Every read of the key, cached or not, answers what the getter answers. -/
theorem read_honoured
    (reads : event.reads pool vm = some (a, key)) : reply = lr_property_get (.object a) prop := by
  have wellFormed := inv.ic.heap.wellFormed live
  have uncached {result : Heap × Reply} (read : lr_get_property fuel vm.heap a key = some result) :
      result.2 = lr_property_get (.object a) prop :=
    lr_get_property_guarded wellFormed live guarded found accessor read
  have missed {always : Bool} {frame : PropFrame} {si : Nat} (named : vm.atom pool si = key)
      (run : vm.readMiss pool fuel always frame a si = some (vm', reply)) :
      reply = lr_property_get (.object a) prop := by
    simp only [readMiss, named, bind_eq_bind, bind_eq_some_iff] at run
    obtain ⟨⟨heap, fetched⟩, read, run⟩ := run
    split at run <;>
      · cases run
        exact uncached read
  have notLength {si : Nat} (named : vm.atom pool si = key) {ad : LRArrayData}
      (type : o.type = .array (some ad)) : pool si ≠ "length" := by
    intro length
    refine guarded.outside ?_
    rw [type, ← named]
    exact .inr (.inl length)
  cases event with
  | get b key' =>
    cases reads
    exact uncached (engine_cases run).1
  | getProp b si =>
    simp only [PropEvent.reads, some.injEq, Prod.mk.injEq] at reads
    obtain ⟨rfl, named⟩ := reads
    simp only [PropVM.step, getProp, live, icHit_guarded inv live guarded named,
      bind_eq_bind, bind_some] at run
    split at run
    · next ad type =>
        rw [if_neg (notLength named type)] at run
        exact missed named run
    · exact missed named run
  | loadPropAdd b si =>
    simp only [PropEvent.reads, some.injEq, Prod.mk.injEq] at reads
    obtain ⟨rfl, named⟩ := reads
    simp only [PropVM.step, loadPropAdd, live, icHit_guarded inv live guarded named,
      bind_eq_bind, bind_some] at run
    exact missed named run
  | getElem b key' =>
    cases reads
    simp only [PropVM.step, getElem, live, elemHit_guarded inv,
      bind_eq_bind, bind_some, bind_eq_some_iff] at run
    obtain ⟨⟨heap, fetched⟩, read, run⟩ := run
    split at run <;>
      · cases run
        exact uncached read
  | getIndex b idx =>
    simp only [PropEvent.reads, some.injEq, Prod.mk.injEq] at reads
    obtain ⟨rfl, named⟩ := reads
    simp only [PropVM.step] at run
    split at run
    · next small =>
        have notArray := guarded.notArray small named
        have slow (run : vm.engine (lr_get_property_uint32 fuel vm.heap b idx) =
            some (vm', reply)) : reply = lr_property_get (.object b) prop := by
          have read := (engine_cases run).1
          simp only [lr_get_property_uint32, bind_eq_bind] at read
          rw [show vm.heap.objs b = some o from live, bind_some] at read
          split at read
          · next ad type => exact (notArray ad type).elim
          · rw [named] at read
            exact uncached read
        simp only [getIndex, live, bind_eq_bind, bind_some] at run
        exact slow run
    · cases run
  | _ => cases reads

/-- Every write of the key calls the setter, whatever the caches hold. -/
theorem write_honoured {val : LRValue} (writes : event.writes pool vm = some (a, key, val)) :
    lr_property_try_set_accessor (.object a) prop val = some reply ∧
      vm'.heap.objs = vm.heap.objs := by
  have uncached {at_ : Addr} {heap : Heap} {answer : Reply}
      (written : lr_set_property fuel vm.heap a key val at_ = some (heap, answer)) :
      lr_property_try_set_accessor (.object a) prop val = some answer ∧
        heap.objs = vm.heap.objs :=
    lr_set_property_guarded live guarded found accessor written
  cases event with
  | set b key' val' at_ | define b key' val' at_ | setElem b key' val' at_ =>
    cases writes
    exact uncached (engine_cases run).1
  | setProp b si val' at_ =>
    simp only [PropEvent.writes, some.injEq, Prod.mk.injEq] at writes
    obtain ⟨rfl, named, rfl⟩ := writes
    simp only [PropVM.step, setProp, live, icHit_guarded inv live guarded named, named,
      bind_eq_bind, bind_some, bind_eq_some_iff] at run
    obtain ⟨⟨heap, answer⟩, written, run⟩ := run
    split at run
    · cases run
      rw [await_heap]
      exact uncached written
    · cases run
      rw [fillIc_heap]
      exact uncached written
  | setIndex b idx val' at_ =>
    simp only [PropEvent.writes, some.injEq, Prod.mk.injEq] at writes
    obtain ⟨rfl, named, rfl⟩ := writes
    simp only [PropVM.step] at run
    split at run
    · next small =>
        have notArray := guarded.notArray small named
        simp only [setIndex, live, bind_eq_bind, bind_some] at run
        have written := (engine_cases run).1
        simp only [lr_set_property_uint32, bind_eq_bind] at written
        rw [show vm.heap.objs b = some o from live, bind_some, named] at written
        split at written
        · next ad type => exact (notArray ad type).elim
        · exact uncached written
    · cases run
  | _ => cases writes

end

end Honoured

theorem AccessorInv.honoured (inv : vm.AccessorInv pool a key) :
    vm.AccessorHonoured pool fuel a key event := by
  obtain ⟨o, live, guarded⟩ := inv.guarded
  obtain ⟨prop, found, accessor⟩ := guarded.accessor
  refine ⟨o, prop, live, found, accessor, fun vm' reply run => ⟨fun reads => ?_,
    fun val writes => ?_⟩⟩
  · exact read_honoured inv live guarded found accessor run reads
  · exact write_honoured inv live guarded found accessor run writes

theorem Definable.define {getter setter : LRValue} (definable : vm.Definable a key o)
    (ic : vm.IcInv pool) (side : getter.isObject ∨ setter.isObject)
    (run : vm.step pool fuel (.accessor a key getter setter) = some (vm', reply)) :
    vm'.AccessorInv pool a key := by
  have fresh : vm.ShapesFresh (.accessor a key getter setter) :=
    ⟨fun _ _ _ _ _ => nofun, fun _ _ => nofun⟩
  obtain ⟨defined, sameLayers⟩ := engine_cases run
  refine ⟨ic.step fresh run, ?_, fun ec => ?_⟩
  · exact lr_set_accessor_property_guards definable.live definable.unrecorded definable.notProxy
      definable.outside side defined
  · rintro ⟨caches, member, remembered⟩
    exact definable.uncached ec ⟨caches, sameLayers ▸ member, remembered⟩

end PropVM

/-- An accessor beside the shape, the elements and the caches is honoured in a run that keeps it,
makes no shape at a remembered address and never remembers its value as an element. -/
theorem accessors_honoured (pool : Nat → Name) (fuel : Nat) (atoms : Name → Addr)
    (before later : List PropEvent) (vm : PropVM) (a : Addr) (key : LRString) (o : LRObject)
    (getter setter : LRValue) (fresh : Runs.Throughout (PropVM.next pool fuel)
      PropVM.ShapesFresh (.start atoms) before) (reaches : Runs.after (PropVM.next pool fuel)
      (.start atoms) before = some vm)
    (definable : vm.Definable a key o) (side : getter.isObject ∨ setter.isObject)
    (careful : ∀ vm' reply, vm.step pool fuel (.accessor a key getter setter) = some (vm', reply) →
      Runs.Throughout (PropVM.next pool fuel)
        (PropVM.Careful a key) vm' later) :
    ∀ vm' reply, vm.step pool fuel (.accessor a key getter setter) = some (vm', reply) →
      Runs.Throughout (PropVM.next pool fuel)
        (PropVM.AccessorHonoured pool fuel a key) vm' later := by
  intro vm' reply defined
  have ic : vm.IcInv pool := by
    refine Runs.Throughout.invariant_after ?_ (.start pool atoms) fresh reaches
    intro state event next inv met step
    obtain ⟨reply, run⟩ := PropVM.step_of_next step
    exact inv.step met run
  refine Runs.Throughout.of_invariant (PropVM.AccessorInv pool a key) ?_ ?_
    (definable.define ic side defined) (careful vm' reply defined)
  · intro state event next inv met step
    obtain ⟨reply, run⟩ := PropVM.step_of_next step
    exact inv.step met run
  · exact fun state event inv _ => inv.honoured

def getterUsed : List PropEvent :=
  [.get 1 ⟨"x", 0⟩, .returned (.int32 5), .set 1 ⟨"x", 0⟩ (.int32 2) 100, .getProp 1 0]

/-- A getter is defined, used, and kept by a write of another property. -/
theorem accessors_honoured_getterUsed :
    ∃ vm vm' reply,
      Runs.after (PropVM.next (fun _ => "x") 0)
        (.start fun _ => 0) [.create 1 .plain .null] = some vm ∧
      PropVM.step (fun _ => "x") 0 vm (.accessor 1 ⟨"x", 0⟩ (.object 7) .undefined) =
        some (vm', reply) ∧
      Runs.Throughout (PropVM.next (fun _ => "x") 0)
        (PropVM.AccessorHonoured (fun _ => "x") 0 1 ⟨"x", 0⟩) vm' getterUsed := by
  have empty (vm : PropVM) (unused : vm.layers = [.empty]) :
      (∀ cp, ¬ vm.RemembersIc cp) ∧ ∀ ec, ¬ vm.RemembersElem ec := by
    constructor <;>
      · rintro entry ⟨caches, member, ci, remembered⟩
        rw [unused, mem_singleton] at member
        subst member
        cases remembered
  have shapeless (vm : PropVM) (first : Option LRObject) (o : LRObject) (alone : vm.heap.objs =
      update (update (fun _ => none) 1 first) 1 (some o))
      (bare : o.shape = none) (made : Option Addr) : vm.heap.Allocatable made := by
    intro a o' shape live shaped
    rw [alone, update_idem, update_apply] at live
    split at live
    · cases live
      cases bare.symm.trans shaped
    · cases live
  refine ⟨_, _, _, rfl, rfl, ?_⟩
  refine accessors_honoured (fun _ => "x") 0 (fun _ => 0) [.create 1 .plain .null] getterUsed _ 1
    ⟨"x", 0⟩ (.alloc .plain .null) (.object 7) .undefined ?_ rfl ?_ (.inl rfl) ?_ _ _ rfl
  · exact ⟨⟨fun _ _ _ _ _ => nofun, fun _ _ => nofun⟩, fun _ _ => trivial⟩
  · exact ⟨rfl, rfl, rfl, id, fun ec remembered => ((empty _ rfl).2 ec remembered).elim⟩
  · intro vm' reply defined
    cases defined
    refine ⟨⟨⟨fun _ _ _ _ _ => nofun, fun _ _ => nofun⟩, id, id⟩, fun _ taken => ?_⟩
    cases taken
    refine ⟨⟨⟨fun _ _ _ _ _ => nofun, fun _ _ => nofun⟩, id, fun top => nomatch top.2⟩,
      fun _ taken => ?_⟩
    cases taken
    refine ⟨⟨⟨shapeless _ _ _ rfl rfl _, fun cp remembered => ?_⟩, id, id⟩, fun _ taken => ?_⟩
    · exact ((empty _ rfl).1 cp remembered).elim
    · cases taken
      exact ⟨⟨⟨fun _ _ _ _ _ => nofun, fun _ _ => nofun⟩, id, id⟩, fun _ _ => trivial⟩

/-- `o = {}; o.x = 1; define a getter; o.x = 2; o.x`: the assignment goes to the
slot, and the read finds it there. -/
theorem overwrittenGetter_bypassed :
    ∃ vm, Runs.after (PropVM.next (fun _ => "x") 0)
        (.start fun _ => 0) [.create 1 .plain .null, .set 1 ⟨"x", 0⟩ (.int32 1) 100,
          .accessor 1 ⟨"x", 0⟩ (.object 7) .undefined] = some vm ∧
      ¬ Runs.Throughout (PropVM.next (fun _ => "x") 0)
        (PropVM.AccessorHonoured (fun _ => "x") 0 1 ⟨"x", 0⟩) vm
        [.set 1 ⟨"x", 0⟩ (.int32 2) 101, .get 1 ⟨"x", 0⟩] := by
  refine ⟨_, rfl, fun honoured => ?_⟩
  change Runs.Throughout _ _ _
    ([PropEvent.set 1 ⟨"x", 0⟩ (.int32 2) 101] ++ PropEvent.get 1 ⟨"x", 0⟩ :: []) at honoured
  obtain ⟨o, prop, live, found, _, answers⟩ := honoured.at_step rfl
  cases live
  cases found
  have answer := (answers _ _ rfl).1 rfl
  revert answer
  decide

end LRJS
