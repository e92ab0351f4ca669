import LRJS.LiveEntries

/-!
# The shape inline cache

An entry of `bc_ic_prop` remembers in which slot the objects with one shape keep one name.  Shape
nodes are never shared and their tables never change, so an entry stays right until its address is
handed out again.  What a hit does with the slot is another matter: it reads and writes the slot
copy without a look at the other one.
-/

namespace LRJS

open Function List Option LRObject Heap

/-- `calloc` returns no address that is in use. -/
def Heap.Allocatable (h : Heap) (made : Option Addr) : Prop :=
  ∀ a o shape, h.objs a = some o → o.shape = some shape → made ≠ some shape.addr

structure Heap.Inv (h : Heap) : Prop where
  wellFormed : ∀ {a o}, h.objs a = some o → o.WellFormed
  owned : ∀ {a b o o' shape shape'}, h.objs a = some o → h.objs b = some o' →
    o.shape = some shape → o'.shape = some shape' → shape.addr = shape'.addr → a = b

def EntryValid (pool : Nat → Name) (h : Heap) (cp : BCICPropCache) : Prop :=
  ∀ a o shape, h.objs a = some o → o.shape = some shape → shape.addr = cp.shape →
    o.shape_get_slot (h.atom (pool cp.name_idx)) = some cp.slot

namespace Heap.Inv

variable {h h' : Heap} {key : LRString} {made : Option Addr} {deletes : Bool} {target : Addr}

theorem of_objs (inv : h.Inv) (objs : h'.objs = h.objs) : h'.Inv where
  wellFormed := fun live => inv.wellFormed (objs ▸ live)
  owned := fun live live' => inv.owned (objs ▸ live) (objs ▸ live')

theorem change (inv : h.Inv) (allocatable : h.Allocatable made)
    (changed : HeapChange key made deletes target h h') : h'.Inv := by
  rcases changed.objs with same | ⟨o, o', live, objChange, objs⟩
  · exact inv.of_objs same
  · have origin {a : Addr} {after : LRObject} {shape : LRShape}
        (live' : h'.objs a = some after) (shaped : after.shape = some shape) :
        (a = target ∧ made = some shape.addr) ∨ ∃ before shape', h.objs a = some before ∧
          before.shape = some shape' ∧ shape.addr = shape'.addr := by
      rw [objs] at live'
      by_cases same : a = target
      · subst same
        rw [update_self, some.injEq] at live'
        subst live'
        rcases objChange.shape shaped with fresh | ⟨shape', before, addr, _⟩
        · exact .inl ⟨rfl, fresh⟩
        · exact .inr ⟨o, shape', live, before, addr⟩
      · rw [update_of_ne same] at live'
        exact .inr ⟨after, shape, live', shaped, rfl⟩
    constructor
    · intro a after live'
      rw [objs] at live'
      by_cases same : a = target
      · subst same
        rw [update_self, some.injEq] at live'
        exact live' ▸ objChange.wellFormed (inv.wellFormed live)
      · rw [update_of_ne same] at live'
        exact inv.wellFormed live'
    · intro a b first second shape shape' firstLive secondLive firstShape secondShape same
      rcases origin firstLive firstShape with ⟨rfl, fresh⟩ | ⟨o₁, s₁, live₁, shape₁, addr₁⟩ <;>
        rcases origin secondLive secondShape with ⟨rfl, fresh'⟩ | ⟨o₂, s₂, live₂, shape₂, addr₂⟩
      · rfl
      · exact absurd (fresh.trans (by rw [same, addr₂])) (allocatable b o₂ s₂ live₂ shape₂)
      · exact absurd (fresh'.trans (by rw [← same, addr₁])) (allocatable a o₁ s₁ live₁ shape₁)
      · exact inv.owned live₁ live₂ shape₁ shape₂ (addr₁.symm.trans (same.trans addr₂))

theorem create (inv : h.Inv) (a : Addr) (type : LRObjectType) (proto : LRValue) :
    (lr_new_object h a type proto).Inv := by
  have old {b : Addr} {o : LRObject} {shape : LRShape}
      (live : (lr_new_object h a type proto).objs b = some o) (shaped : o.shape = some shape) :
      h.objs b = some o := by
    by_cases same : b = a
    · subst same
      rw [lr_new_object, put_self, some.injEq] at live
      subst live
      cases shaped
    · rwa [lr_new_object, put_of_ne h _ same] at live
  constructor
  · intro b o live
    by_cases same : b = a
    · subst same
      rw [lr_new_object, put_self, some.injEq] at live
      exact live ▸ .alloc type proto
    · rw [lr_new_object, put_of_ne h _ same] at live
      exact inv.wellFormed live
  · intro b c o o' shape shape' live live' shaped shaped'
    exact inv.owned (old live shaped) (old live' shaped') shaped shaped'

theorem free (inv : h.Inv) (a : Addr) : (lr_free_object h a).Inv := by
  have old {b : Addr} {o : LRObject} (live : (lr_free_object h a).objs b = some o) :
      h.objs b = some o := by
    by_cases same : b = a
    · subst same
      rw [free_self] at live
      cases live
    · rwa [free_of_ne h same] at live
  exact ⟨fun live => inv.wellFormed (old live),
    fun live live' => inv.owned (old live) (old live')⟩

theorem retouch {a : Addr} {o o' : LRObject} (inv : h.Inv) (live : h.objs a = some o)
    (shape : o'.shape = o.shape) (wellFormed : o'.WellFormed) : (h.put a o').Inv := by
  have old {b : Addr} {after : LRObject} (live' : (h.put a o').objs b = some after) :
      ∃ before, h.objs b = some before ∧ before.shape = after.shape := by
    by_cases same : b = a
    · subst same
      rw [put_self, some.injEq] at live'
      exact ⟨o, live, live' ▸ shape.symm⟩
    · rw [put_of_ne h _ same] at live'
      exact ⟨after, live', rfl⟩
  constructor
  · intro b after live'
    by_cases same : b = a
    · subst same
      rw [put_self, some.injEq] at live'
      exact live' ▸ wellFormed
    · rw [put_of_ne h _ same] at live'
      exact inv.wellFormed live'
  · intro b c o₁ o₂ shape₁ shape₂ live₁ live₂ shaped₁ shaped₂
    obtain ⟨_, wasLive₁, same₁⟩ := old live₁
    obtain ⟨_, wasLive₂, same₂⟩ := old live₂
    exact inv.owned wasLive₁ wasLive₂ (same₁.trans shaped₁) (same₂.trans shaped₂)

end Heap.Inv

namespace EntryValid

variable {pool : Nat → Name} {h h' : Heap} {key : LRString} {made : Option Addr}
variable {deletes : Bool} {target : Addr} {cp : BCICPropCache}

section

variable (valid : EntryValid pool h cp)
include valid

theorem of_shapes (atoms : h'.atoms = h.atoms)
    (shapes : ∀ a o shape, h'.objs a = some o → o.shape = some shape → shape.addr = cp.shape →
      ∃ before shape', h.objs a = some before ∧ before.shape = some shape' ∧
        shape'.addr = shape.addr ∧ shape'.flat = shape.flat) : EntryValid pool h' cp := by
  intro a o shape live shaped remembered
  obtain ⟨before, shape', live', shaped', addr, flat⟩ := shapes a o shape live shaped remembered
  have slot := valid a before shape' live' shaped' (addr.trans remembered)
  have sameAtom : h'.atom (pool cp.name_idx) = h.atom (pool cp.name_idx) := by
    rw [atom, atom, atoms]
  rw [sameAtom, shape_get_slot, shaped, bind_some, ← flat]
  rwa [shape_get_slot, shaped', bind_some] at slot

theorem of_objs (atoms : h'.atoms = h.atoms) (objs : h'.objs = h.objs) : EntryValid pool h' cp :=
  valid.of_shapes atoms fun _ o shape live shaped _ =>
    ⟨o, shape, objs ▸ live, shaped, rfl, rfl⟩

theorem change (unremembered : made ≠ some cp.shape)
    (changed : HeapChange key made deletes target h h') : EntryValid pool h' cp := by
  rcases changed.objs with same | ⟨o, o', live, objChange, objs⟩
  · exact valid.of_objs changed.atoms same
  · refine valid.of_shapes changed.atoms fun a after shape live' shaped remembered => ?_
    rw [objs] at live'
    by_cases same : a = target
    · subst same
      rw [update_self, some.injEq] at live'
      subst live'
      rcases objChange.shape shaped with fresh | ⟨shape', before, addr, flat⟩
      · exact absurd (remembered ▸ fresh) unremembered
      · exact ⟨o, shape', live, before, addr.symm, flat.symm⟩
    · rw [update_of_ne same] at live'
      exact ⟨after, shape, live', shaped, rfl, rfl⟩

theorem create (a : Addr) (type : LRObjectType) (proto : LRValue) :
    EntryValid pool (lr_new_object h a type proto) cp := by
  refine valid.of_shapes rfl fun b o shape live shaped _ => ?_
  by_cases same : b = a
  · subst same
    rw [lr_new_object, put_self, some.injEq] at live
    subst live
    cases shaped
  · rw [lr_new_object, put_of_ne h _ same] at live
    exact ⟨o, shape, live, shaped, rfl, rfl⟩

theorem free (a : Addr) :
    EntryValid pool (lr_free_object h a) cp := by
  refine valid.of_shapes rfl fun b o shape live shaped _ => ?_
  by_cases same : b = a
  · subst same
    rw [free_self] at live
    cases live
  · rw [free_of_ne h same] at live
    exact ⟨o, shape, live, shaped, rfl, rfl⟩

theorem retouch {a : Addr} {o o' : LRObject} (live : h.objs a = some o)
    (shape : o'.shape = o.shape) : EntryValid pool (h.put a o') cp := by
  refine valid.of_shapes rfl fun b after shape' live' shaped _ => ?_
  by_cases same : b = a
  · subst same
    rw [put_self, some.injEq] at live'
    subst live'
    exact ⟨o, shape', live, shape.symm.trans shaped, rfl, rfl⟩
  · rw [put_of_ne h _ same] at live'
    exact ⟨after, shape', live', shaped, rfl, rfl⟩

end

end EntryValid

namespace HeapStep

variable {pool : Nat → Name} {h h' : Heap} {event : PropEvent}

section

variable (step : HeapStep pool h event h')
include step

theorem atoms : h'.atoms = h.atoms := by
  cases step with
  | keeps objs atoms counter => exact atoms
  | change touched changed => exact changed.atoms
  | proto is live result | create is unused result | free is result => exact result ▸ rfl

theorem inv (inv : h.Inv) (allocatable : h.Allocatable event.made) : h'.Inv := by
  cases step with
  | keeps objs atoms counter => exact inv.of_objs objs
  | change touched changed => exact inv.change allocatable changed
  | proto is live result =>
    have wellFormed := inv.wellFormed live
    rw [result]
    exact inv.retouch live rfl
      ⟨wellFormed.keys, wellFormed.inside, wellFormed.injective, wellFormed.counted⟩
  | create is unused result => exact result ▸ inv.create _ _ _
  | free is result => exact result ▸ inv.free _

theorem entryValid {names : Nat → Name} {cp : BCICPropCache}
    (valid : EntryValid names h cp) (unremembered : event.made ≠ some cp.shape) :
    EntryValid names h' cp := by
  cases step with
  | keeps objs atoms counter => exact valid.of_objs atoms objs
  | change touched changed => exact valid.change unremembered changed
  | proto is live result => exact result ▸ valid.retouch live rfl
  | create is unused result => exact result ▸ valid.create _ _ _
  | free is result => exact result ▸ valid.free _

end

end HeapStep

namespace PropVM

structure IcInv (pool : Nat → Name) (vm : PropVM) : Prop where
  heap : vm.heap.Inv
  valid : ∀ {cp}, vm.RemembersIc cp → EntryValid pool vm.heap cp

/-- No shape is made at an address that the allocator may not return, or that an
entry remembers. -/
structure ShapesFresh (vm : PropVM) (event : PropEvent) : Prop where
  allocatable : vm.heap.Allocatable event.made
  unremembered : ∀ cp, vm.RemembersIc cp → event.made ≠ some cp.shape

theorem icHit_spec {pool : Nat → Name} {vm : PropVM} (inv : vm.IcInv pool) :
    vm.HitsRecorded pool := by
  intro a o si slot live hit
  simp only [PropCaches.icHit, bind_eq_bind, bind_eq_some_iff] at hit
  obtain ⟨cp, remembered, shape, shaped, hit⟩ := hit
  split at hit
  · next matches_ =>
      cases hit
      obtain ⟨_, notProxy, same, _, rfl⟩ := matches_
      refine ⟨notProxy, ?_⟩
      exact inv.valid ⟨vm.caches, mem_cons_self, _, remembered⟩ a o shape live shaped
        same.symm
  · cases hit

namespace IcInv

variable {pool : Nat → Name} {fuel : Nat} {vm vm' : PropVM} {event : PropEvent}
variable {cp : BCICPropCache} {h' : Heap}

theorem start (pool : Nat → Name) (atoms : Name → Addr) : (PropVM.start atoms).IcInv pool where
  heap := ⟨fun live => (nomatch live), fun live _ _ _ _ => nomatch live⟩
  valid := by
    rintro cp ⟨caches, member, ci, remembered⟩
    rw [start_layers member] at remembered
    cases remembered

theorem fillValid {caches : PropCaches} {a : Addr} {o : LRObject} {si ci : Nat} (heap : h'.Inv)
    (live : h'.objs a = some o)
    (filled : (caches.icFill o si (h'.atom (pool si))).ic ci = some cp) :
    caches.ic ci = some cp ∨ EntryValid pool h' cp := by
  rcases PropCaches.icFill_cases filled with old | ⟨shape, slot, shaped, inside, rfl⟩
  · exact .inl old
  · refine .inr fun b o' shape' live' shaped' same => ?_
    obtain rfl := heap.owned live' live shaped' shaped same
    obtain rfl : o' = o := some.inj (live'.symm.trans live)
    exact (slotInside_eq (heap.wellFormed live) _).symm.trans inside

theorem step {reply : Reply} (inv : vm.IcInv pool) (fresh : vm.ShapesFresh event)
    (run : vm.step pool fuel event = some (vm', reply)) : vm'.IcInv pool := by
  have cases_ := step_cases (fun _ _ _ _ _ => icHit_spec inv) run
  have heap : vm'.heap.Inv := cases_.heap.inv inv.heap fresh.allocatable
  have old {cp : BCICPropCache} (remembered : vm.RemembersIc cp) : EntryValid pool vm'.heap cp :=
    cases_.heap.entryValid (inv.valid remembered) (fresh.unremembered cp remembered)
  refine ⟨heap, ?_⟩
  rintro cp ⟨caches, member, ci, remembered⟩
  rcases cases_.layers caches member with before | filled
  · exact old ⟨caches, before, ci, remembered⟩
  · cases filled with
    | ic si live =>
      rcases fillValid heap live remembered with before | valid
      · exact old ⟨vm.caches, mem_cons_self, ci, before⟩
      · exact valid
    | elem live source =>
      rw [PropCaches.elemFill_ic] at remembered
      exact old ⟨vm.caches, mem_cons_self, ci, remembered⟩

end IcInv

end PropVM

def LRObject.dense (o : LRObject) (atom : LRString) : Option LRValue :=
  match o.type with
  | .array data => denseGet data atom
  | .typedArray (some tad) =>
    (lr_is_numeric_index atom).map fun idx =>
      if idx < tad.length then tad.elements idx else .undefined
  | _ => none

theorem LRObject.dense_of_outside {o : LRObject} {key : LRString}
    (outside : ¬ o.type.Indexes key) : o.dense key = none := by
  unfold dense
  split
  · next data type =>
      cases data with
      | none => rfl
      | some ad =>
        simp only [type, LRObjectType.Indexes, not_or] at outside
        have notIndex : lr_is_numeric_index key = none := by
          simpa using outside.1
        simp [denseGet, notIndex, outside.2.1]
  · next tad type =>
      simp only [type, LRObjectType.Indexes] at outside
      have notIndex : lr_is_numeric_index key = none := by
        simpa using outside
      rw [notIndex]
      rfl
  · rfl

/-- The object holds `v` for a key also outside of `props`. -/
def LRObject.HoldsBeside (o : LRObject) (atom : LRString) (v : LRValue) : Prop :=
  o.dense atom = some v ∨ (o.dense atom = none ∧ ∃ prop, o.find_own_prop atom = some prop ∧
    prop.flags.accessor = false ∧ prop.value = v)

def Heap.Misses (fuel : Nat) (h : Heap) (a : Addr) (o : LRObject) (atom : LRString) : Prop :=
  o.dense atom = none ∧ o.find_own_prop atom = none ∧
    ∃ h', protoGet h (.object a) atom fuel o.proto = some (h', .value .undefined)

/-- A slot may be read without a look at the rest: it is a defined slot of a small
plain object, or the rest says the same. -/
def SlotReadable (fuel : Nat) (h : Heap) (a : Addr) (o : LRObject) (atom : LRString)
    (slot : Nat) : Prop :=
  (o.small ∧ o.slotValue slot ≠ .undefined) ∨ o.HoldsBeside atom (o.slotValue slot) ∨
    (o.slotValue slot = .undefined ∧ h.Misses fuel a o atom)

/-- Assigning `val` to a key changes no element and no length. -/
def LRObject.KeepsElements (o : LRObject) (atom : LRString) (val : LRValue) : Prop :=
  match o.type with
  | .array (some ad) => denseSet ad atom val = ad
  | .typedArray (some _) => lr_is_numeric_index atom = none
  | _ => True

/-- A slot may be written alone: the object is a small plain one, or the rest
holds the value already. -/
def SlotWritable (o : LRObject) (atom : LRString) (val : LRValue) : Prop :=
  o.small ∨ (o.KeepsElements atom val ∧ ∃ prop, o.find_own_prop atom = some prop ∧
    prop.flags.accessor = false ∧ prop.value = val)

section Reading

variable {fuel : Nat} {h : Heap} {a : Addr} {o : LRObject} {atom : LRString} {slot : Nat}

theorem slowGet_of_data {prop : LRProperty} (inv : o.WellFormed) (live : h.objs a = some o)
    (found : o.find_own_prop atom = some prop) (data : prop.flags.getter = false) :
    (slowGet fuel h a o atom).map Prod.snd = some (.value prop.value) := by
  unfold slowGet
  split
  · next cached hit =>
      obtain ⟨cachedProp, member, rfl, -, rfl⟩ := shape_cache_lookup_some live hit
      rw [find_of_mem inv member, some.injEq] at found
      rw [found]
      rfl
  · simp [found, lr_property_get, data]

theorem lr_get_property_of_not_fast (live : h.objs a = some o)
    (notProxy : o.type.isProxy = false) (notFast : fastGet o atom = none) :
    lr_get_property fuel h a atom =
      match o.dense atom with
      | some v => some (h, .value v)
      | none => slowGet fuel h a o atom := by
  simp only [lr_get_property, live, bind_eq_bind, bind_some, notFast,
    dense]
  cases type : o.type with
  | typedArray data =>
    cases data with
    | none => rfl
    | some tad => cases lr_is_numeric_index atom <;> rfl
  | array data => rfl
  | proxy data => simp [type, LRObjectType.isProxy] at notProxy
  | _ => rfl

theorem fastGet_eq (inv : o.WellFormed) (recorded : o.shape_get_slot atom = some slot) :
    fastGet o atom = if o.small ∧ o.slotValue slot ≠ .undefined then
      some (o.slotValue slot) else none := by
  rw [fastGet, fastSlot, slotInside_eq inv, recorded]
  by_cases small : o.small <;> by_cases defined : o.slotValue slot = .undefined <;>
    simp [small, defined]

/-- A slot that is readable has what `lr_get_property` answers. -/
theorem transparent_read (inv : o.WellFormed) (live : h.objs a = some o)
    (notProxy : o.type.isProxy = false) (recorded : o.shape_get_slot atom = some slot)
    (readable : SlotReadable fuel h a o atom slot) :
    (lr_get_property fuel h a atom).map Prod.snd = some (.value (o.slotValue slot)) := by
  by_cases fast : o.small ∧ o.slotValue slot ≠ .undefined
  · have hit : fastGet o atom = some (o.slotValue slot) := by
      rw [fastGet_eq inv recorded, if_pos fast]
    simp [lr_get_property, live, hit]
  · have miss : fastGet o atom = none := by
      rw [fastGet_eq inv recorded, if_neg fast]
    rw [lr_get_property_of_not_fast live notProxy miss]
    rcases readable with small | (dense | ⟨notDense, prop, found, data, value⟩) | ⟨cleared,
      notDense, absent, h', missing⟩
    · exact absurd small fast
    · rw [dense]
      rfl
    · rw [notDense, ← value]
      simp only [LRPropFlags.accessor, Bool.or_eq_false_iff] at data
      exact slowGet_of_data inv live found data.1
    · rw [notDense, cleared]
      dsimp only
      unfold slowGet
      split
      · next cached hit =>
          obtain ⟨prop, member, rfl, _⟩ := shape_cache_lookup_some live hit
          cases (find_of_mem inv member).symm.trans absent
      · rw [absent]
        rw [missing]
        rfl

end Reading

section Writing

variable {fuel : Nat} {h : Heap} {a at_ : Addr} {o : LRObject} {atom : LRString}
variable {slot : Nat} {val : LRValue}

theorem setValue_self {prop : LRProperty} (inv : o.WellFormed)
    (found : o.find_own_prop atom = some prop) (value : prop.value = val) :
    o.setValue atom val = o := by
  have same : ∀ other ∈ o.prop_hash,
      (if other.key = atom then { other with value := val } else other) = other := by
    intro other member
    split
    · next key =>
        have unique : other = prop := by
          have own := find_of_mem inv member
          rw [key, found, some.injEq] at own
          exact own.symm
        rw [unique, ← value]
    · rfl
  unfold setValue updateProp
  rw [List.map_congr_left same, List.map_id']

theorem storeProperty_self {prop : LRProperty} (inv : o.WellFormed)
    (recorded : o.shape_get_slot atom = some slot) (found : o.find_own_prop atom = some prop)
    (data : prop.flags.accessor = false) (value : prop.value = val) :
    ∃ h', storeProperty fuel h a o atom val at_ = some (h', .status 0) ∧
      h'.objs = (h.put a (o.setSlot slot val)).objs := by
  have mirrored : (o.setValue atom val).mirror atom val = o.setSlot slot val := by
    rw [setValue_self inv found value, mirror, slotInside_eq inv, recorded]
  have plainData : lr_property_try_set_accessor (.object a) prop val = none := by
    simp [lr_property_try_set_accessor, data]
  refine ⟨(h.put a ((o.setValue atom val).mirror atom val)).shape_cache_update a atom prop, ?_,
    congrArg (fun o' => (h.put a o').objs) mirrored⟩
  simp only [storeProperty, found, plainData]

/-- A write to a slot that is writable is the one of `lr_set_property`. -/
theorem transparent_write (inv : o.WellFormed) (live : h.objs a = some o)
    (notProxy : o.type.isProxy = false) (recorded : o.shape_get_slot atom = some slot)
    (writable : SlotWritable o atom val) :
    ∃ h', lr_set_property fuel h a atom val at_ = some (h', .status 0) ∧
      h'.objs = (h.put a (o.setSlot slot val)).objs := by
  simp only [lr_set_property, live, bind_eq_bind, bind_some]
  by_cases small : o.small
  · have fast : o.fastSlot atom = some slot := by
      rw [fastSlot, if_pos small, slotInside_eq inv, recorded]
    rw [fast]
    exact ⟨_, rfl, rfl⟩
  · have notFast : o.fastSlot atom = none := by
      rw [fastSlot, if_neg small]
    rcases writable with isSmall | ⟨keeps, prop, found, data, value⟩
    · exact absurd isSmall small
    · have stored : ∃ h', storeProperty fuel h a o atom val at_ = some (h', .status 0) ∧
          h'.objs = (h.put a (o.setSlot slot val)).objs :=
        storeProperty_self inv recorded found data value
      rw [notFast]
      unfold LRObject.KeepsElements at keeps
      cases type : o.type with
      | proxy data => simp [type, LRObjectType.isProxy] at notProxy
      | array data =>
        cases data with
        | none => exact stored
        | some ad =>
          simp only [type] at keeps
          have same : { o with type := .array (some (denseSet ad atom val)) } = o := by
            rw [keeps, ← type]
          dsimp only
          rw [same]
          exact stored
      | typedArray data =>
        cases data with
        | none => exact stored
        | some tad =>
          simp only [type] at keeps
          rw [keeps]
          exact stored
      | _ => exact stored

end Writing

namespace PropVM

variable (pool : Nat → Name) (fuel : Nat)

def HitTransparent (vm : PropVM) (event : PropEvent) : Prop :=
  ∀ a o si slot vm' reply, vm.obj a = some o → vm.caches.icHit o si = some slot →
    vm.step pool fuel event = some (vm', reply) →
    match event with
    | .getProp b si' | .loadPropAdd b si' => b = a → si' = si →
        (lr_get_property fuel vm.heap a (vm.atom pool si)).map Prod.snd = some reply
    | .setProp b si' val at_ => b = a → si' = si →
        ∃ h', lr_set_property fuel vm.heap a (vm.atom pool si) val at_ = some (h', reply) ∧
          h'.objs = vm'.heap.objs
    | _ => True

/-- No shape and no object is made at a remembered address, and a hit meets a slot that may be read
or written alone. -/
def HitCoherent (vm : PropVM) (event : PropEvent) : Prop :=
  vm.ShapesFresh event ∧ vm.MadeElsewhere event ∧
    ∀ a o si slot, vm.obj a = some o → vm.caches.icHit o si = some slot →
    match event with
    | .getProp b si' | .loadPropAdd b si' => b = a → si' = si →
        SlotReadable fuel vm.heap a o (vm.atom pool si) slot
    | .setProp b si' val _ => b = a → si' = si → SlotWritable o (vm.atom pool si) val
    | _ => True

variable {pool : Nat → Name} {fuel : Nat} {vm : PropVM}

/-- A hit on a coherent entry is transparent. -/
theorem hitTransparent_of_coherent (inv : vm.IcInv pool) {event : PropEvent}
    (coherent : vm.HitCoherent pool fuel event) : vm.HitTransparent pool fuel event := by
  intro a o si slot vm' reply live hit run
  obtain ⟨notProxy, recorded⟩ := icHit_spec inv a o si slot live hit
  have wellFormed := inv.heap.wellFormed live
  have here := coherent.2.2 a o si slot live hit
  cases event with
  | getProp b si' =>
    rintro rfl rfl
    simp only [step, getProp, live, bind_eq_bind, bind_some, hit,
      some.injEq, Prod.mk.injEq] at run
    rw [← run.2]
    exact transparent_read wellFormed live notProxy recorded (here rfl rfl)
  | loadPropAdd b si' =>
    rintro rfl rfl
    simp only [step, loadPropAdd, live, bind_eq_bind, bind_some, hit,
      some.injEq, Prod.mk.injEq] at run
    rw [← run.2]
    exact transparent_read wellFormed live notProxy recorded (here rfl rfl)
  | setProp b si' val at_ =>
    rintro rfl rfl
    simp only [step, setProp, live, bind_eq_bind, bind_some, hit,
      some.injEq, Prod.mk.injEq] at run
    obtain ⟨rfl, rfl⟩ := run
    exact transparent_write wellFormed live notProxy recorded (here rfl rfl)
  | _ => trivial

end PropVM

/-- Where no shape and no object is made at a remembered address and hits find slots that may be
read or written alone, every hit is transparent. -/
theorem shape_cache_transparent (pool : Nat → Name) (fuel : Nat) (atoms : Name → Addr)
    (events : List PropEvent) (coherent : Runs.Throughout (PropVM.next pool fuel)
      (PropVM.HitCoherent pool fuel) (.start atoms) events) :
    Runs.Throughout (PropVM.next pool fuel)
      (PropVM.HitTransparent pool fuel) (.start atoms) events := by
  refine Runs.Throughout.of_invariant (PropVM.IcInv pool) ?_ ?_ (.start pool atoms) coherent
  · intro vm event next inv met taken
    obtain ⟨reply, run⟩ := PropVM.step_of_next taken
    exact inv.step met.1 run
  · exact fun vm event inv met => PropVM.hitTransparent_of_coherent inv met

def namedRead : List PropEvent :=
  [.create 1 .plain .null, .set 1 ⟨"x", 0⟩ (.int32 1) 100, .getProp 1 0, .getProp 1 0]

/-- A named read that hits behind another one. -/
theorem shape_cache_transparent_namedRead :
    Runs.Throughout (PropVM.next (fun _ => "x") 0)
      (PropVM.HitTransparent (fun _ => "x") 0) (.start fun _ => 0) namedRead := by
  have empty (vm : PropVM) (unused : vm.layers = [.empty]) (cp : BCICPropCache) :
      ¬ vm.RemembersIc cp := by
    rintro ⟨caches, member, ci, remembered⟩
    rw [unused, mem_singleton] at member
    subst member
    cases remembered
  have only (vm : PropVM) (o : LRObject) (alone : vm.heap.objs = Function.update (fun _ => none) 1
      (some o)) (a : Addr) (o' : LRObject) (live : vm.heap.objs a = some o') :
      a = 1 ∧ o' = o := by
    rw [alone, update_apply] at live
    split at live
    · next same => exact ⟨same, (some.inj live).symm⟩
    · cases live
  refine shape_cache_transparent _ _ _ _ ⟨⟨⟨?_, ?_⟩, ?_, ?_⟩, fun _ taken => ?_⟩
  · exact fun _ _ _ _ _ => nofun
  · exact fun _ _ => nofun
  · exact fun _ _ _ _ _ _ cached => nomatch cached
  · exact fun _ _ _ _ _ _ => trivial
  · cases taken
    refine ⟨⟨⟨fun a o shape live shaped => ?_, fun cp remembered => ?_⟩, nofun, ?_⟩,
      fun _ taken => ?_⟩
    · obtain ⟨rfl, rfl⟩ := only _ _ rfl a o live
      cases shaped
    · exact absurd remembered (empty _ rfl cp)
    · exact fun _ _ _ _ _ _ => trivial
    · cases taken
      refine ⟨⟨⟨fun _ _ _ _ _ => nofun, fun _ _ => nofun⟩, nofun, ?_⟩, fun _ taken => ?_⟩
      · intro a o si slot live hit
        cases hit
      · cases taken
        refine ⟨⟨⟨fun _ _ _ _ _ => nofun, fun _ _ => nofun⟩, nofun, ?_⟩, fun _ _ => trivial⟩
        rintro a o si slot live hit rfl rfl
        cases live
        cases hit
        exact .inl (by decide)

/-- `o = { x: 1, get x() {...} }; o.x; o.x`: the cache gets the cleared slot, and the second read
answers `undefined` without the getter. -/
def shadowedGetter : List PropEvent :=
  [.create 1 .plain .null, .set 1 ⟨"x", 0⟩ (.int32 1) 100,
    .accessor 1 ⟨"x", 0⟩ (.object 7) .undefined, .getProp 1 0, .returned (.int32 5)]

theorem shadowedGetter_bypassed :
    ¬ Runs.Throughout (PropVM.next (fun _ => "x") 0)
      (PropVM.HitTransparent (fun _ => "x") 0) (.start fun _ => 0)
      (shadowedGetter ++ [.getProp 1 0]) := by
  intro transparent
  have last := transparent.at_step rfl 1 _ 0 0 _ _ rfl rfl rfl rfl rfl
  revert last
  decide

end LRJS
