import LRJS.Layout

/-!
# What an operation can change

Every engine operation on a key changes at most one object, and that object in
one of a few ways.  `ObjChange` lists them with what is known where they
happen; one lemma for each operation says that nothing else can.
-/

namespace LRJS

open List Option LRObject

def LRObjectType.Indexes (type : LRObjectType) (key : LRString) : Prop :=
  match type with
  | .array (some _) =>
    (lr_is_numeric_index key).isSome ∨ key.str = "length" ∨
      ∃ idx < 2 ^ 31, key.str = toString idx
  | .typedArray (some _) => (lr_is_numeric_index key).isSome
  | _ => False

theorem denseSet_of_not_indexes {ad : LRArrayData} {key : LRString} {val : LRValue}
    (outside : ¬ LRObjectType.Indexes (.array (some ad)) key) : denseSet ad key val = ad := by
  simp only [LRObjectType.Indexes, not_or] at outside
  have notIndex : lr_is_numeric_index key = none := by
    simpa using outside.1
  have notLength : ¬ (key.str = "length" ∧ 0 ≤ lr_to_int32 val) :=
    fun both => outside.2.1 both.1
  rw [denseSet, notIndex]
  exact if_neg notLength

/-- How an operation on `key` changes an object.  `made` is the address of a shape node that it may
allocate, `deletes` whether it may delete, `ids` the next property identity before and after. -/
inductive ObjChange (key : LRString) (made : Option Addr) (deletes : Bool) (ids : Nat × Nat) :
    LRObject → LRObject → Prop where
  | elements {o o' : LRObject} (type : LRObjectType) (inside : o.type.Indexes key)
      (indexed : (∃ ad ad', o.type = .array (some ad) ∧ type = .array (some ad')) ∨
        ∃ tad tad', o.type = .typedArray (some tad) ∧ type = .typedArray (some tad')) :
      ObjChange key made deletes ids { o with type } o' → ObjChange key made deletes ids o o'
  | same (o : LRObject) : ObjChange key made deletes ids o o
  | slot {o : LRObject} {slot : Nat} (val : LRValue) (recorded : o.shape_get_slot key = some slot) :
      ObjChange key made deletes ids o (o.setSlot slot val)
  | both {o : LRObject} {prop : LRProperty} (val : LRValue)
      (found : o.find_own_prop key = some prop) (data : prop.flags.accessor = false) :
      ObjChange key made deletes ids o ((o.setValue key val).mirror key val)
  | direct {o : LRObject} {prop : LRProperty} (val : LRValue)
      (found : o.find_own_prop key = some prop) (data : prop.flags.accessor = false) :
      ObjChange key made deletes ids o (o.setValue key val)
  | fresh {o : LRObject} {at_ : Addr} (val : LRValue) (isNew : o.find_own_prop key = none)
      (allocated : made = some at_) (numbered : ids.2 = ids.1 + 1) :
      ObjChange key made deletes ids o
        ((o.link ⟨ids.1, key, val, .undefined, .normal⟩).shape_add_prop key val at_)
  | merge {o : LRObject} {prop : LRProperty} (getter setter : LRValue)
      (found : o.find_own_prop key = some prop) (accessor : prop.flags.accessor = true) :
      ObjChange key made deletes ids o (o.mergeAccessor key getter setter)
  | demote {o : LRObject} {prop : LRProperty} (getter setter : LRValue)
      (found : o.find_own_prop key = some prop) (data : prop.flags.accessor = false) :
      ObjChange key made deletes ids o
        ((o.demote key getter setter).mirror key .undefined).bumpVersion
  | accessor {o : LRObject} (getter setter : LRValue) (isNew : o.find_own_prop key = none)
      (defining : made = none ∧ deletes = false) (numbered : ids.2 = ids.1 + 1) :
      ObjChange key made deletes ids o
        (o.link ⟨ids.1, key, getter, setter, accessorFlags getter setter⟩)
  | unlink {o : LRObject} {prop : LRProperty} (found : o.find_own_prop key = some prop)
      (deleting : deletes = true) :
      ObjChange key made deletes ids o (((o.unlink key).mirror key .undefined).bumpVersion)

/-- An operation on `key` left the heap as it is, or changed the object at
`target`. -/
structure HeapChange (key : LRString) (made : Option Addr) (deletes : Bool) (target : Addr)
    (h h' : Heap) : Prop where
  atoms : h'.atoms = h.atoms
  counter : h.next_prop ≤ h'.next_prop
  objs : h'.objs = h.objs ∨ ∃ o o', h.objs target = some o ∧
    ObjChange key made deletes (h.next_prop, h'.next_prop) o o' ∧
    h'.objs = Function.update h.objs target (some o')

namespace HeapChange

variable {key : LRString} {made : Option Addr} {deletes : Bool} {a target : Addr}
variable {h h' : Heap}

theorem refl : HeapChange key made deletes target h h :=
  ⟨rfl, Nat.le_refl _, .inl rfl⟩

theorem put {o o' : LRObject} (live : h.objs a = some o)
    (change : ObjChange key made deletes (h.next_prop, h.next_prop) o o') :
    HeapChange key made deletes a h (h.put a o') :=
  ⟨rfl, Nat.le_refl _, .inr ⟨o, o', live, change, rfl⟩⟩

end HeapChange

/-- The object that an operation on the object at `a` can change: the target of a
proxy, otherwise the object itself. -/
def Heap.reached (h : Heap) (a : Addr) : Addr :=
  match h.objs a with
  | some o =>
    match o.type with
    | .proxy (some ⟨.object target, _⟩) => target
    | _ => a
  | none => a

theorem trapOr_cases {fuel : Nat} {h h' : Heap} {handler : LRValue} {name : Name}
    {onTrap : LRValue → Reply} {forward : Option (Heap × Reply)} {reply : Reply}
    (run : trapOr fuel h handler name onTrap forward = some (h', reply)) :
    h' = h ∨ forward = some (h', reply) := by
  simp only [trapOr, withTrap, bind_eq_bind, bind_eq_some_iff] at run
  obtain ⟨fetched, _, run⟩ := run
  cases fetched with
  | value trap =>
    simp only [bind_eq_some_iff] at run
    obtain ⟨callable, _, run⟩ := run
    split at run
    · cases run
      exact .inl rfl
    · exact .inr run
  | call getter this args use =>
    cases run
    exact .inl rfl
  | status code | truth b | names tab => cases run

section Reads

variable {fuel : Nat} {h h' : Heap} {a : Addr} {o : LRObject} {atom : LRString} {reply : Reply}

theorem proxyGet_heap {obj : LRValue} {data : Option LRProxyData}
    (run : proxyGet fuel h obj data atom = some (h', reply)) : h' = h := by
  cases data with
  | none =>
    cases run
    rfl
  | some pd =>
    rcases trapOr_cases run with same | forwarded
    · exact same
    · simp only [map_eq_some_iff, Prod.mk.injEq] at forwarded
      obtain ⟨_, _, same, _⟩ := forwarded
      exact same.symm

/-- A read along the prototypes leaves the heap. -/
theorem protoGet_heap {receiver : LRValue} :
    ∀ {fuel : Nat} {proto : LRValue}, protoGet h receiver atom fuel proto = some (h', reply) →
      h' = h := by
  intro fuel
  induction fuel with
  | zero =>
    intro proto run
    cases proto <;> cases run
    all_goals rfl
  | succ fuel ih =>
    intro proto run
    cases proto with
    | object p =>
      simp only [protoGet, bind_eq_bind, bind_eq_some_iff] at run
      obtain ⟨po, _, run⟩ := run
      split at run
      · exact proxyGet_heap run
      · split at run
        · cases run
          rfl
        · exact ih run
    | _ =>
      cases run
      rfl

theorem slowGet_objs (run : slowGet fuel h a o atom = some (h', reply)) :
    h'.objs = h.objs ∧ h'.atoms = h.atoms ∧ h'.next_prop = h.next_prop := by
  unfold slowGet at run
  split at run
  · cases run
    exact ⟨rfl, rfl, rfl⟩
  · split at run
    · cases run
      exact ⟨rfl, rfl, rfl⟩
    · rw [protoGet_heap run]
      exact ⟨rfl, rfl, rfl⟩

/-- A read leaves the objects. -/
theorem lr_get_property_objs (run : lr_get_property fuel h a atom = some (h', reply)) :
    h'.objs = h.objs ∧ h'.atoms = h.atoms ∧ h'.next_prop = h.next_prop := by
  simp only [lr_get_property, bind_eq_bind, bind_eq_some_iff] at run
  obtain ⟨o, _, run⟩ := run
  split at run
  · cases run
    exact ⟨rfl, rfl, rfl⟩
  · split at run
    · rw [proxyGet_heap run]
      exact ⟨rfl, rfl, rfl⟩
    · split at run
      · cases run
        exact ⟨rfl, rfl, rfl⟩
      · exact slowGet_objs run
    · split at run
      · cases run
        exact ⟨rfl, rfl, rfl⟩
      · exact slowGet_objs run
    · exact slowGet_objs run

theorem lr_get_property_uint32_objs {idx : Nat}
    (run : lr_get_property_uint32 fuel h a idx = some (h', reply)) :
    h'.objs = h.objs ∧ h'.atoms = h.atoms ∧ h'.next_prop = h.next_prop := by
  simp only [lr_get_property_uint32, bind_eq_bind, bind_eq_some_iff] at run
  obtain ⟨o, _, run⟩ := run
  split at run
  · split at run
    · cases run
      exact ⟨rfl, rfl, rfl⟩
    · exact lr_get_property_objs run
  · exact lr_get_property_objs run

end Reads

section Writes

variable {fuel : Nat} {h h' : Heap} {a at_ : Addr} {o : LRObject} {key : LRString}
variable {val : LRValue} {reply : Reply}

theorem try_set_accessor_none {receiver : LRValue} {prop : LRProperty}
    (none_ : lr_property_try_set_accessor receiver prop val = none) :
    prop.flags.accessor = false := by
  unfold lr_property_try_set_accessor at none_
  split at none_
  · split at none_ <;> cases none_
  · next data =>
      simpa using data

/-- Storing a property changes its object only, at this key. -/
theorem change_storeProperty (run : storeProperty fuel h a o key val at_ = some (h', reply)) :
    h'.atoms = h.atoms ∧ h.next_prop ≤ h'.next_prop ∧
      ∃ o', ObjChange key (some at_) false (h.next_prop, h'.next_prop) o o' ∧
        h'.objs = Function.update h.objs a (some o') := by
  unfold storeProperty at run
  split at run
  · next prop found =>
      split at run
      · cases run
        exact ⟨rfl, Nat.le_refl _, o, .same o, rfl⟩
      · next none_ =>
          cases run
          exact ⟨rfl, Nat.le_refl _, _, .both val found (try_set_accessor_none none_), rfl⟩
  · next isNew =>
      simp only [bind_eq_bind, bind_eq_some_iff] at run
      obtain ⟨setter, _, run⟩ := run
      split at run
      · cases run
        exact ⟨rfl, Nat.le_refl _, o, .same o, rfl⟩
      · cases run
        exact ⟨rfl, Nat.le_succ _, _, .fresh val isNew rfl rfl, rfl⟩

/-- A direct write changes its target only, at this key. -/
theorem change_lr_set_property_direct {target : Addr}
    (run : lr_set_property_direct fuel h (.object target) key val at_ = some (h', reply)) :
    HeapChange key (some at_) false target h h' := by
  simp only [lr_set_property_direct, bind_eq_bind, bind_eq_some_iff] at run
  obtain ⟨o, live, run⟩ := run
  split at run
  · next prop found =>
      split at run
      · cases run
        exact .refl
      · next none_ =>
          cases run
          exact .put live (.direct val found (try_set_accessor_none none_))
  · next isNew =>
      simp only [bind_eq_some_iff] at run
      obtain ⟨setter, _, run⟩ := run
      split at run
      · cases run
        exact .refl
      · cases run
        exact ⟨rfl, Nat.le_succ _, .inr ⟨o, _, live, .fresh val isNew rfl rfl, rfl⟩⟩

/-- A write through a proxy changes one object that it reaches, at this key. -/
theorem change_proxySet {data : Option LRProxyData} (live : h.objs a = some o)
    (proxy : o.type = .proxy data) (run : proxySet fuel h a data key val at_ = some (h', reply)) :
    HeapChange key (some at_) false (h.reached a) h h' := by
  cases data with
  | none =>
    cases run
    exact .refl
  | some pd =>
    rcases trapOr_cases run with rfl | forwarded
    · exact .refl
    · obtain ⟨target, handler⟩ := pd
      cases target with
      | object t =>
        have reached : h.reached a = t := by
          simp [Heap.reached, live, proxy]
        rw [reached]
        exact change_lr_set_property_direct forwarded
      | _ =>
        cases forwarded
        exact .refl

theorem reached_of_not_proxy (live : h.objs a = some o) (notProxy : o.type.isProxy = false) :
    h.reached a = a := by
  rw [Heap.reached, live]
  dsimp only
  split
  · next target handler proxy =>
      simp [proxy, LRObjectType.isProxy] at notProxy
  · rfl

/-- A write changes one object that it reaches, at this key, or nothing. -/
theorem change_lr_set_property (run : lr_set_property fuel h a key val at_ = some (h', reply)) :
    HeapChange key (some at_) false (h.reached a) h h' := by
  simp only [lr_set_property, bind_eq_bind, bind_eq_some_iff] at run
  obtain ⟨o, live, run⟩ := run
  have stored {o₁ : LRObject} (notProxy : o.type.isProxy = false)
      (before : ∀ o' ids, ObjChange key (some at_) false ids o₁ o' →
        ObjChange key (some at_) false ids o o')
      (run : storeProperty fuel h a o₁ key val at_ = some (h', reply)) :
      HeapChange key (some at_) false (h.reached a) h h' := by
    rw [reached_of_not_proxy live notProxy]
    obtain ⟨atoms, counter, o', change, objs⟩ := change_storeProperty run
    exact ⟨atoms, counter, .inr ⟨o, o', live, before o' _ change, objs⟩⟩
  split at run
  · next slot fast =>
      have recorded : o.shape_get_slot key = some slot := by
        rw [fastSlot] at fast
        split at fast
        · exact (filter_eq_some_iff.mp fast).1
        · cases fast
      have notProxy : o.type.isProxy = false := by
        unfold fastSlot small at fast
        cases type : o.type <;> simp [type, LRObjectType.isPlain, LRObjectType.isProxy] at fast ⊢
      rw [reached_of_not_proxy live notProxy]
      cases run
      exact .put live (.slot val recorded)
  · split at run
    · next data proxy =>
        exact change_proxySet live proxy run
    · next tad type =>
        have notProxy : o.type.isProxy = false := by
          rw [type]
          rfl
        split at run
        · next idx index =>
          have inside : o.type.Indexes key := by
            rw [type]
            exact isSome_iff_exists.mpr ⟨idx, index⟩
          rw [reached_of_not_proxy live notProxy]
          split at run
          · cases run
            exact .put live (.elements _ inside (.inr ⟨tad, _, type, rfl⟩) (.same _))
          · cases run
            exact .refl
        · exact stored notProxy (fun _ _ change => change) run
    · next ad type =>
        by_cases inside : LRObjectType.Indexes (.array (some ad)) key
        · exact stored (by rw [type]; rfl)
            (fun _ _ change => .elements _ (type ▸ inside) (.inl ⟨ad, _, type, rfl⟩) change) run
        · rw [denseSet_of_not_indexes inside, ← type] at run
          exact stored (by rw [type]; rfl) (fun _ _ change => change) run
    · next notProxy _ _ =>
        refine stored ?_ (fun _ _ change => change) run
        cases type : o.type with
        | proxy data => exact absurd type (notProxy data)
        | _ => rfl

theorem change_lr_set_property_uint32 {idx : Nat} (small : idx < 2 ^ 31)
    (run : lr_set_property_uint32 fuel h a idx val at_ = some (h', reply)) :
    HeapChange (h.atom (toString idx)) (some at_) false (h.reached a) h h' := by
  simp only [lr_set_property_uint32, bind_eq_bind, bind_eq_some_iff] at run
  obtain ⟨o, live, run⟩ := run
  split at run
  · next ad type =>
      cases run
      have inside : o.type.Indexes (h.atom (toString idx)) := by
        rw [type]
        exact .inr (.inr ⟨idx, small, rfl⟩)
      rw [reached_of_not_proxy live (by rw [type]; rfl)]
      exact .put live (.elements _ inside (.inl ⟨ad, _, type, rfl⟩) (.same _))
  · exact change_lr_set_property run

theorem change_lr_set_accessor_property {getter setter : LRValue}
    (run : lr_set_accessor_property h a key getter setter = some (h', reply)) :
    HeapChange key none false a h h' := by
  simp only [lr_set_accessor_property, bind_eq_bind, bind_eq_some_iff] at run
  obtain ⟨o, live, run⟩ := run
  split at run
  · next prop found =>
      split at run
      · next accessor =>
          cases run
          exact ⟨rfl, Nat.le_refl _, .inr ⟨o, _, live, .merge getter setter found accessor, rfl⟩⟩
      · next data =>
          cases run
          exact ⟨rfl, Nat.le_refl _, .inr ⟨o, _, live,
            .demote getter setter found (Bool.eq_false_iff.mpr data), rfl⟩⟩
  · next isNew =>
      cases run
      exact ⟨rfl, Nat.le_succ _, .inr ⟨o, _, live,
        .accessor getter setter isNew ⟨rfl, rfl⟩ rfl, rfl⟩⟩

theorem change_delete_own (live : h.objs a = some o) :
    HeapChange key none true a h (lr_object_delete_own_prop h a o key).1 := by
  unfold lr_object_delete_own_prop
  split
  · exact .refl
  · next prop found =>
    have drop : (h.shape_cache_drop a key).objs = h.objs ∧
        (h.shape_cache_drop a key).atoms = h.atoms ∧
        (h.shape_cache_drop a key).next_prop = h.next_prop := by
      unfold Heap.shape_cache_drop
      split
      · split <;> exact ⟨rfl, rfl, rfl⟩
      · exact ⟨rfl, rfl, rfl⟩
    refine ⟨drop.2.1, drop.2.2.symm.le, .inr ⟨o, _, live, .unlink found rfl, ?_⟩⟩
    rw [← drop.1]
    rfl

/-- A deletion changes one object that it reaches, at this key, or nothing. -/
theorem change_lr_delete_property (run : lr_delete_property fuel h a key = some (h', reply)) :
    HeapChange key none true (h.reached a) h h' := by
  simp only [lr_delete_property, bind_eq_bind, bind_eq_some_iff] at run
  obtain ⟨o, live, run⟩ := run
  split at run
  · cases run
    exact .refl
  · next pd proxy =>
      rcases trapOr_cases run with rfl | forwarded
      · exact .refl
      · obtain ⟨target, handler⟩ := pd
        cases target with
        | object t =>
          have reached : h.reached a = t := by
            simp [Heap.reached, live, proxy]
          simp only [lr_delete_property_direct, bind_eq_bind,
            bind_eq_some_iff] at forwarded
          obtain ⟨o', live', deleted⟩ := forwarded
          have change : HeapChange key none true t h _ := change_delete_own live'
          rw [some.inj deleted] at change
          exact reached ▸ change
        | _ =>
          cases forwarded
          exact .refl
  · next notNone notSome =>
      have notProxy : o.type.isProxy = false := by
        cases type : o.type with
        | proxy data =>
          cases data with
          | none => exact absurd type notNone
          | some pd => exact absurd type (notSome pd)
        | _ => rfl
      have change : HeapChange key none true a h _ := change_delete_own live
      rw [some.inj run] at change
      rw [reached_of_not_proxy live notProxy]
      exact change

end Writes

namespace LRObject

theorem WellFormed.retype {o : LRObject} (inv : o.WellFormed) (type : LRObjectType) :
    WellFormed { o with type } :=
  ⟨inv.keys, inv.inside, inv.injective, inv.counted⟩

end LRObject

namespace ObjChange

variable {o o' : LRObject} {key other : LRString} {made : Option Addr} {deletes : Bool}
variable {ids : Nat × Nat}

section

variable (change : ObjChange key made deletes ids o o')
include change

theorem wellFormed (inv : o.WellFormed) : o'.WellFormed := by
  induction change with
  | elements type _ _ _ ih =>
    exact ih (inv.retype type)
  | same o => exact inv
  | slot val recorded => exact inv.setSlot
  | both val found data => exact inv.setValue.mirror
  | direct val found data => exact inv.setValue
  | fresh val isNew allocated numbered => exact (inv.link isNew).shape_add_prop
  | merge getter setter found accessor => exact inv.mergeAccessor
  | demote getter setter found data => exact inv.demote.mirror.bumpVersion
  | accessor getter setter isNew defining numbered => exact inv.link isNew
  | unlink found deleting => exact inv.unlink.mirror.bumpVersion

/-- An object keeps its shape or gets the one that was made. -/
theorem shape {shape' : LRShape} (after : o'.shape = some shape') :
    made = some shape'.addr ∨ ∃ shape, o.shape = some shape ∧ shape'.addr = shape.addr ∧
      shape'.flat = shape.flat := by
  have bumped {o : LRObject} (after : o.bumpVersion.shape = some shape') :
      ∃ shape, o.shape = some shape ∧ shape'.addr = shape.addr ∧ shape'.flat = shape.flat := by
    obtain ⟨shape, before, rfl⟩ := map_eq_some_iff.mp after
    exact ⟨shape, before, rfl, rfl⟩
  induction change with
  | elements type _ _ _ ih =>
    exact ih after
  | same o | slot val recorded => exact .inr ⟨shape', after, rfl, rfl⟩
  | both val found data =>
    rw [shape_mirror] at after
    exact .inr ⟨shape', after, rfl, rfl⟩
  | direct val found data => exact .inr ⟨shape', after, rfl, rfl⟩
  | fresh val isNew allocated numbered =>
    unfold shape_add_prop at after
    dsimp only at after
    split at after
    · cases after
      exact .inl allocated
    · exact .inr ⟨shape', after, rfl, rfl⟩
  | merge getter setter found accessor => exact .inr ⟨shape', after, rfl, rfl⟩
  | demote getter setter found data =>
    obtain ⟨shape, before, addr, flat⟩ := bumped after
    rw [shape_mirror] at before
    exact .inr ⟨shape, before, addr, flat⟩
  | accessor getter setter isNew defining numbered => exact .inr ⟨shape', after, rfl, rfl⟩
  | unlink found deleting =>
    obtain ⟨shape, before, addr, flat⟩ := bumped after
    rw [shape_mirror] at before
    exact .inr ⟨shape, before, addr, flat⟩

theorem proto : o'.proto = o.proto := by
  induction change with
  | elements type _ _ _ ih => exact ih
  | _ => simp

end

section

variable (change : ObjChange key made deletes ids o o')
include change

theorem isProxy : o'.type.isProxy = o.type.isProxy := by
  induction change with
  | elements type _ indexed _ ih =>
    rw [ih]
    rcases indexed with ⟨ad, ad', before, rfl⟩ | ⟨tad, tad', before, rfl⟩ <;> rw [before] <;> rfl
  | _ => simp

theorem indexes : o'.type.Indexes other ↔ o.type.Indexes other := by
  induction change with
  | elements type _ indexed _ ih =>
    rw [ih]
    rcases indexed with ⟨ad, ad', before, rfl⟩ | ⟨tad, tad', before, rfl⟩ <;> rw [before] <;> rfl
  | _ => simp

/-- A change at one key leaves the others to be found. -/
theorem find_of_ne (different : other ≠ key) : o'.find_own_prop other = o.find_own_prop other := by
  induction change with
  | elements type _ _ _ ih => exact ih
  | same o | slot val recorded => rfl
  | both val found data =>
    rw [find_mirror, find_setValue]
    simp [different]
  | direct val found data =>
    rw [find_setValue]
    simp [different]
  | fresh val isNew allocated numbered =>
    rw [find_shape_add_prop, find_link, if_neg different]
  | merge getter setter found accessor =>
    rw [find_mergeAccessor]
    simp [different]
  | demote getter setter found data =>
    rw [find_bumpVersion, find_mirror, find_demote]
    simp [different]
  | accessor getter setter isNew defining numbered => rw [find_link, if_neg different]
  | unlink found deleting =>
    rw [find_bumpVersion, find_mirror, find_unlink, if_neg different]

theorem slot_of_ne (inv : o.WellFormed)
    (different : other ≠ key) : o'.shape_get_slot other = o.shape_get_slot other := by
  induction change with
  | elements type _ _ _ ih =>
    exact ih (inv.retype type)
  | fresh val isNew allocated numbered =>
    rw [slot_shape_add_prop (inv.link isNew), if_neg fun both => different both.1]
    rfl
  | _ => simp

end

end ObjChange

end LRJS
