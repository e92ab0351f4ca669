import LRJS.InlineCache

/-!
# The element cache

`BC_GET_ELEM` remembers the value that it read for an object and a key, and answers with it while
the object keeps its number of properties.  An entry is right as long as nothing changes the object
and its prototypes up to the one with the key.  `BC_SET_ELEM` never looks at the cache.
-/

namespace LRJS

open Function List Option LRObject

/-- A property answers with `v` and calls no function. -/
def LRProperty.Holds (prop : LRProperty) (v : LRValue) : Prop :=
  prop.flags.getter = false ∧ prop.value = v

def LRObject.PassesOn (o : LRObject) (key : LRString) : Prop :=
  fastGet o key = none ∧ o.dense key = none ∧ o.find_own_prop key = none

namespace Heap

/-- The walk from a prototype consults the object at `b`. -/
inductive ProtoConsults (h : Heap) (key : LRString) (b : Addr) : LRValue → Prop where
  | here : ProtoConsults h key b (.object b)
  | next {p : Addr} {po : LRObject} (live : h.objs p = some po)
      (absent : po.find_own_prop key = none) (later : ProtoConsults h key b po.proto) :
      ProtoConsults h key b (.object p)

/-- A read of the key on the object at `a` consults the prototype at `b`. -/
def Inherits (h : Heap) (key : LRString) (a b : Addr) : Prop :=
  ∃ o, h.objs a = some o ∧ o.PassesOn key ∧ h.ProtoConsults key b o.proto

/-- The walk from a prototype meets no proxy and answers with `v`. -/
inductive ProtoHolds (h : Heap) (key : LRString) (v : LRValue) : LRValue → Prop where
  | found {p : Addr} {po : LRObject} {prop : LRProperty} (live : h.objs p = some po)
      (notProxy : po.type.isProxy = false) (found : po.find_own_prop key = some prop)
      (holds : prop.Holds v) : ProtoHolds h key v (.object p)
  | next {p : Addr} {po : LRObject} (live : h.objs p = some po)
      (notProxy : po.type.isProxy = false) (absent : po.find_own_prop key = none)
      (later : ProtoHolds h key v po.proto) : ProtoHolds h key v (.object p)

/-- The object, or else its prototypes, answer with `v` and call no function. -/
def Holds (h : Heap) (o : LRObject) (key : LRString) (v : LRValue) : Prop :=
  fastGet o key = some v ∨ (fastGet o key = none ∧ (o.dense key = some v ∨
    (o.dense key = none ∧ ((∃ prop, o.find_own_prop key = some prop ∧ prop.Holds v) ∨
      (o.find_own_prop key = none ∧ h.ProtoHolds key v o.proto)))))

end Heap

/-! ## Reads -/

section Reads

variable {fuel : Nat} {h h' : Heap} {a : Addr} {o : LRObject} {key : LRString} {v : LRValue}

variable {receiver : LRValue}

theorem protoGet_of_holds {proto : LRValue} (holds : h.ProtoHolds key v proto) :
    ∃ enough, ∀ fuel ≥ enough, protoGet h receiver key fuel proto = some (h, .value v) := by
  have unproxied {po : LRObject} (notProxy : po.type.isProxy = false)
      (data : Option LRProxyData) : po.type ≠ .proxy data := by
    intro type
    rw [type] at notProxy
    cases notProxy
  induction holds with
  | @found p po prop live notProxy found holds =>
    refine ⟨1, fun fuel enough => ?_⟩
    obtain ⟨fuel, rfl⟩ := Nat.exists_eq_add_of_le' enough
    simp only [protoGet, live, bind_eq_bind, bind_some]
    split
    · next data type => exact (unproxied notProxy data type).elim
    · simp [found, lr_property_get, holds.1, holds.2]
  | @next p po live notProxy absent _ ih =>
    obtain ⟨enough, reaches⟩ := ih
    refine ⟨enough + 1, fun fuel more => ?_⟩
    obtain ⟨rest, rfl⟩ := Nat.exists_eq_add_of_le' more
    simp only [protoGet, live, bind_eq_bind, bind_some]
    split
    · next data type => exact (unproxied notProxy data type).elim
    · rw [absent]
      exact reaches _ (Nat.le_add_left enough rest)

theorem lr_get_property_of_holds (inv : o.WellFormed) (live : h.objs a = some o)
    (notProxy : o.type.isProxy = false) (holds : h.Holds o key v) :
    ∃ enough, ∀ fuel ≥ enough,
      (lr_get_property fuel h a key).map Prod.snd = some (.value v) := by
  rcases holds with fast | ⟨notFast, dense | ⟨notDense, ⟨prop, found, getter, rfl⟩ | inherited⟩⟩
  · refine ⟨0, fun fuel _ => ?_⟩
    simp [lr_get_property, live, fast]
  · refine ⟨0, fun fuel _ => ?_⟩
    rw [lr_get_property_of_not_fast live notProxy notFast, dense]
    rfl
  · refine ⟨0, fun fuel _ => ?_⟩
    rw [lr_get_property_of_not_fast live notProxy notFast, notDense]
    exact slowGet_of_data inv live found getter
  · obtain ⟨absent, later⟩ := inherited
    have walk : ∃ enough, ∀ fuel ≥ enough,
        protoGet h (.object a) key fuel o.proto = some (h, .value v) :=
      protoGet_of_holds later
    obtain ⟨enough, reaches⟩ := walk
    refine ⟨enough, fun fuel more => ?_⟩
    rw [lr_get_property_of_not_fast live notProxy notFast, notDense]
    dsimp only
    unfold slowGet
    split
    · next cached hit =>
        obtain ⟨prop, member, rfl, _⟩ := Heap.shape_cache_lookup_some live hit
        cases (find_of_mem inv member).symm.trans absent
    · rw [absent]
      rw [reaches fuel more]
      rfl

theorem LRProperty.holds_of_get {prop : LRProperty}
    (defined : v ≠ .undefined) (answer : lr_property_get receiver prop = .value v) :
    prop.Holds v := by
  unfold lr_property_get at answer
  split at answer
  · split at answer
    · cases answer
    · cases answer
      exact absurd rfl defined
  · next getter =>
      cases answer
      exact ⟨Bool.eq_false_iff.mpr getter, rfl⟩

/-- A value read from the prototypes is held by the one the read consulted. -/
theorem protoHolds_of_get (defined : v ≠ .undefined) :
    ∀ {fuel : Nat} {proto : LRValue},
      (∀ b o, h.ProtoConsults key b proto → h.objs b = some o → o.type.isProxy = false) →
      protoGet h receiver key fuel proto = some (h', .value v) → h.ProtoHolds key v proto := by
  have ended {proto : LRValue}
      (run : some (h, Reply.value .undefined) = some (h', Reply.value v)) :
      h.ProtoHolds key v proto := by
    cases run
    exact absurd rfl defined
  intro fuel
  induction fuel with
  | zero =>
    intro proto _ run
    cases proto with
    | object p => cases run
    | _ => exact ended run
  | succ fuel ih =>
    intro proto unproxied run
    cases proto with
    | object p =>
      simp only [protoGet, bind_eq_bind, bind_eq_some_iff] at run
      obtain ⟨po, live, run⟩ := run
      have notProxy := unproxied p po .here live
      split at run
      · next data type =>
          rw [type] at notProxy
          cases notProxy
      · split at run
        · next prop found =>
            simp only [some.injEq, Prod.mk.injEq] at run
            exact .found live notProxy found (LRProperty.holds_of_get defined run.2)
        · next absent =>
            refine .next live notProxy absent (ih ?_ run)
            exact fun b o consulted => unproxied b o (.next live absent consulted)
    | _ => exact ended run

theorem holds_of_get (inv : o.WellFormed) (live : h.objs a = some o)
    (notProxy : o.type.isProxy = false)
    (unproxied : ∀ b o, h.Inherits key a b → h.objs b = some o → o.type.isProxy = false)
    (defined : v ≠ .undefined)
    (run : lr_get_property fuel h a key = some (h', .value v)) : h.Holds o key v := by
  cases fast : fastGet o key with
  | some w =>
    simp only [lr_get_property, live, bind_eq_bind, bind_some, fast,
      some.injEq, Prod.mk.injEq, Reply.value.injEq] at run
    exact .inl (by rw [fast, run.2])
  | none =>
    rw [lr_get_property_of_not_fast live notProxy fast] at run
    refine .inr ⟨fast, ?_⟩
    cases dense : o.dense key with
    | some w =>
      simp only [dense, some.injEq, Prod.mk.injEq, Reply.value.injEq] at run
      exact .inl (by rw [run.2])
    | none =>
      rw [dense] at run
      dsimp only at run
      refine .inr ⟨rfl, ?_⟩
      unfold slowGet at run
      split at run
      · next cached hit =>
          obtain ⟨prop, member, rfl, data, value⟩ := Heap.shape_cache_lookup_some live hit
          simp only [some.injEq, Prod.mk.injEq, Reply.value.injEq] at run
          simp only [LRPropFlags.accessor, Bool.or_eq_false_iff] at data
          exact .inl ⟨prop, find_of_mem inv member, data.1, value.trans run.2⟩
      · split at run
        · next prop found =>
            simp only [some.injEq, Prod.mk.injEq] at run
            exact .inl ⟨prop, found, LRProperty.holds_of_get defined run.2⟩
        · next absent =>
            refine .inr ⟨absent, protoHolds_of_get defined ?_ run⟩
            exact fun b o consulted => unproxied b o ⟨_, live, ⟨fast, dense, absent⟩, consulted⟩

end Reads

/-! ## What leaves an answer -/

structure LRObject.SameLink (key : LRString) (o o' : LRObject) : Prop where
  find : o'.find_own_prop key = o.find_own_prop key
  isProxy : o'.type.isProxy = o.type.isProxy
  proto : o.find_own_prop key = none → o'.proto = o.proto

structure LRObject.SameAnswer (key : LRString) (o o' : LRObject) : Prop where
  find : o'.find_own_prop key = o.find_own_prop key
  isProxy : o'.type.isProxy = o.type.isProxy
  proto : o.PassesOn key → o'.proto = o.proto
  fast : fastGet o' key = fastGet o key
  dense : o'.dense key = o.dense key

theorem LRObject.SameLink.refl (key : LRString) (o : LRObject) : o.SameLink key o :=
  ⟨rfl, rfl, fun _ => rfl⟩

theorem LRObject.SameAnswer.refl (key : LRString) (o : LRObject) : o.SameAnswer key o :=
  ⟨rfl, rfl, fun _ => rfl, rfl, rfl⟩

namespace Heap

variable {h h' : Heap} {key : LRString} {v : LRValue}

theorem ProtoHolds.frame {proto : LRValue} (holds : h.ProtoHolds key v proto)
    (same : ∀ b o, h.ProtoConsults key b proto → h.objs b = some o →
      ∃ o', h'.objs b = some o' ∧ o.SameLink key o') : h'.ProtoHolds key v proto := by
  induction holds with
  | @found p po prop live notProxy found holds =>
    obtain ⟨po', live', link⟩ := same p po .here live
    exact .found live' (link.isProxy.trans notProxy) (link.find.trans found) holds
  | @next p po live notProxy absent _ ih =>
    obtain ⟨po', live', link⟩ := same p po .here live
    refine .next live' (link.isProxy.trans notProxy) (link.find.trans absent) ?_
    rw [link.proto absent]
    exact ih fun b o consulted => same b o (.next live absent consulted)

theorem Holds.frame {a : Addr} {o o' : LRObject} (holds : h.Holds o key v)
    (live : h.objs a = some o) (answer : o.SameAnswer key o')
    (same : ∀ b po, h.Inherits key a b → h.objs b = some po →
      ∃ po', h'.objs b = some po' ∧ po.SameLink key po') : h'.Holds o' key v := by
  rw [Holds, answer.fast, answer.dense, answer.find]
  rcases holds with fast | ⟨notFast, dense | ⟨notDense, own | ⟨absent, later⟩⟩⟩
  · exact .inl fast
  · exact .inr ⟨notFast, .inl dense⟩
  · exact .inr ⟨notFast, .inr ⟨notDense, .inl own⟩⟩
  · have passes : o.PassesOn key := ⟨notFast, notDense, absent⟩
    rw [answer.proto passes]
    refine .inr ⟨notFast, .inr ⟨notDense, .inr ⟨absent, later.frame ?_⟩⟩⟩
    exact fun b po consulted => same b po ⟨o, live, passes, consulted⟩

end Heap

namespace LRObject

variable {o o' : LRObject} {key : LRString}

theorem small_congr (type : o'.type = o.type) (shape : o'.shape.isSome = o.shape.isSome)
    (length : o'.props.length = o.props.length) : o'.small = o.small := by
  have empty : o'.props = [] ↔ o.props = [] := by
    rw [← length_eq_zero_iff, ← length_eq_zero_iff, length]
  simp [small, type, shape, length, empty]

theorem fastGet_congr (inv : o.WellFormed) (inv' : o'.WellFormed) (small : o'.small = o.small)
    (slot : o'.shape_get_slot key = o.shape_get_slot key)
    (value : ∀ slot, o.shape_get_slot key = some slot → o'.slotValue slot = o.slotValue slot) :
    fastGet o' key = fastGet o key := by
  rw [fastGet, fastGet, fastSlot, fastSlot, slotInside_eq inv, slotInside_eq inv', small, slot]
  split
  · cases recorded : o.shape_get_slot key with
    | none => rfl
    | some slot => rw [map_some, map_some, value slot recorded]
  · rfl

end LRObject

namespace ObjChange

variable {o o' : LRObject} {key other : LRString} {made : Option Addr} {deletes : Bool}
variable {ids : Nat × Nat}

theorem link_of_ne (change : ObjChange key made deletes ids o o') (different : other ≠ key) :
    o.SameLink other o' :=
  ⟨change.find_of_ne different, change.isProxy, fun _ => change.proto⟩

theorem length_le (change : ObjChange key made deletes ids o o') :
    o.props.length ≤ o'.props.length := by
  induction change with
  | elements type _ _ _ ih => exact ih
  | _ => simp

section

variable (inv : o.WellFormed) {slot' : Nat} {val : LRValue} (different : other ≠ key)
include inv different

theorem slotValue_of_ne {slot : Nat} (recorded : o.shape_get_slot key = some slot)
    (recorded' : o.shape_get_slot other = some slot') :
    (o.setSlot slot val).slotValue slot' = o.slotValue slot' := by
  rw [slotValue_setSlot (inv.inside recorded)]
  refine if_neg fun same => different ?_
  subst same
  exact inv.injective recorded' recorded

theorem slotValue_mirror_of_ne (recorded' : o.shape_get_slot other = some slot') :
    (o.mirror key val).slotValue slot' = o.slotValue slot' := by
  rw [slotValue_mirror inv]
  refine if_neg fun same => different ?_
  exact inv.injective recorded' same

end

section

variable (change : ObjChange key made deletes ids o o') (inv : o.WellFormed)
    (different : other ≠ key) (apart : o.type.Indexes key → ¬ o.type.Indexes other)
include change inv different apart

/-- A change at one key changes the count, or leaves the other keys. -/
theorem parts_of_ne :
    o.props.length < o'.props.length ∨ (o'.small = o.small ∧ o'.dense other = o.dense other ∧
      ∀ slot, o.shape_get_slot other = some slot → o'.slotValue slot = o.slotValue slot) := by
  have mirrored {o : LRObject} (inv : o.WellFormed) (val : LRValue) :
      (o.mirror key val).small = o.small ∧ (o.mirror key val).dense other = o.dense other ∧
        ∀ slot, o.shape_get_slot other = some slot →
          (o.mirror key val).slotValue slot = o.slotValue slot :=
    ⟨small_congr (by simp) (by simp) (by simp),
      by rw [dense, dense, type_mirror],
      fun slot recorded => slotValue_mirror_of_ne inv different recorded⟩
  have bumped (o : LRObject) : o.bumpVersion.small = o.small :=
    small_congr rfl (by simp [bumpVersion]) rfl
  induction change with
  | @elements o o' type inside indexed _ ih =>
    have plain : small { o with type := type } = o.small := by
      rcases indexed with ⟨ad, ad', before, rfl⟩ | ⟨tad, tad', before, rfl⟩ <;>
        simp [small, before, LRObjectType.isPlain]
    have sameIndexes (key : LRString) : type.Indexes key ↔ o.type.Indexes key := by
      rcases indexed with ⟨ad, ad', before, rfl⟩ | ⟨tad, tad', before, rfl⟩ <;>
        rw [before] <;> rfl
    have outside : ¬ o.type.Indexes other := apart inside
    have outside' : ¬ type.Indexes other := fun within => outside ((sameIndexes other).mp within)
    rcases ih (inv.retype type) (fun _ => outside') with longer | ⟨small, dense,
      value⟩
    · exact .inl longer
    · refine .inr ⟨small.trans plain, dense.trans ?_, value⟩
      rw [dense_of_outside outside, dense_of_outside outside']
  | same o => exact .inr ⟨rfl, rfl, fun _ _ => rfl⟩
  | @slot o slot val recorded =>
    refine .inr ⟨small_congr rfl rfl (by simp), rfl, fun slot' recorded' => ?_⟩
    exact slotValue_of_ne inv different recorded recorded'
  | @both o prop val found data => exact .inr (mirrored inv.setValue val)
  | direct val found data => exact .inr ⟨small_congr rfl rfl rfl, rfl, fun _ _ => rfl⟩
  | fresh val isNew allocated numbered =>
    refine .inl ?_
    rw [length_shape_add_prop]
    exact Nat.lt_succ_self _
  | merge getter setter found accessor =>
    exact .inr ⟨small_congr rfl rfl rfl, rfl, fun _ _ => rfl⟩
  | demote getter setter found data =>
    obtain ⟨small, dense, value⟩ := mirrored inv.demote .undefined
    exact .inr ⟨(bumped _).trans small, dense, value⟩
  | accessor getter setter isNew defining numbered =>
    exact .inr ⟨small_congr rfl rfl rfl, rfl, fun _ _ => rfl⟩
  | unlink found deleting =>
    obtain ⟨small, dense, value⟩ := mirrored inv.unlink .undefined
    exact .inr ⟨(bumped _).trans small, dense, value⟩

theorem answer_of_ne : o.props.length < o'.props.length ∨ o.SameAnswer other o' := by
  rcases change.parts_of_ne inv different apart with longer | ⟨small, dense, value⟩
  · exact .inl longer
  · refine .inr ⟨change.find_of_ne different, change.isProxy, fun _ => change.proto, ?_, dense⟩
    exact fastGet_congr inv (change.wellFormed inv) small
      (change.slot_of_ne inv different) value

end

section

variable (change : ObjChange key made deletes ids o o') (absent : o.find_own_prop key = none)
include change absent

theorem link_of_absent (deletion : made = none ∧ deletes = true) : o.SameLink key o' := by
  refine ⟨?_, change.isProxy, fun _ => change.proto⟩
  induction change with
  | elements type inside indexed _ ih => exact ih absent
  | same o | slot val recorded => rfl
  | both val found data | direct val found data => cases found.symm.trans absent
  | fresh val isNew allocated numbered => cases deletion.1.symm.trans allocated
  | merge getter setter found accessor | demote getter setter found data =>
    cases found.symm.trans absent
  | accessor getter setter isNew defining numbered => cases deletion.2.symm.trans defining.2
  | unlink found deleting => cases found.symm.trans absent

/-- A write or a deletion of a key that the object knows nowhere adds a property, or
does nothing. -/
theorem idle (unrecorded : o.shape_get_slot key = none) (outside : ¬ o.type.Indexes key)
    (writes : made ≠ none ∨ deletes = true) : o.props.length < o'.props.length ∨ o' = o := by
  cases change with
  | elements type inside _ _ => exact (outside inside).elim
  | same o => exact .inr rfl
  | slot val recorded => cases recorded.symm.trans unrecorded
  | both val found data | direct val found data => cases found.symm.trans absent
  | fresh val isNew allocated numbered =>
    refine .inl ?_
    rw [length_shape_add_prop]
    exact Nat.lt_succ_self _
  | merge getter setter found accessor | demote getter setter found data =>
    cases found.symm.trans absent
  | accessor getter setter isNew defining numbered =>
    rcases writes with some | deleting
    · exact (some defining.1).elim
    · cases deleting.symm.trans defining.2
  | unlink found deleting => cases found.symm.trans absent

end

end ObjChange

/-! ## The invariant -/

namespace PropVM

/-- Writing or deleting a key that the object knows nowhere: the object gets a
property more, or stays. -/
def Idle (event : PropEvent) (o : LRObject) (key : LRString) : Prop :=
  o.find_own_prop key = none ∧ o.shape_get_slot key = none ∧ ¬ o.type.Indexes key ∧
    (event.made ≠ none ∨ event.deletes = true)

/-- The event may change what a read of the key on the object at `a` answers,
without adding a property to the object. -/
inductive Disturbs (pool : Nat → Name) (vm : PropVM) (event : PropEvent) (a : Addr)
    (key : LRString) : Prop where
  | own {o : LRObject} (live : vm.obj a = some o)
      (touched : event.touches pool vm.heap = some (a, key)) (active : ¬ Idle event o key)
  | element {o : LRObject} {other : LRString} (live : vm.obj a = some o)
      (touched : event.touches pool vm.heap = some (a, other)) (written : o.type.Indexes other)
      (read : o.type.Indexes key)
  | proto {o : LRObject} {proto : LRValue} (is : event = .setProto a proto)
      (live : vm.obj a = some o) (passes : o.PassesOn key)
  | inherited {b : Addr} {o : LRObject} (inherits : vm.heap.Inherits key a b)
      (live : vm.obj b = some o) (touched : event.touches pool vm.heap = some (b, key))
      (active : event.deletes = true → o.find_own_prop key ≠ none)
  | inheritedProto {b : Addr} {o : LRObject} {proto : LRValue}
      (inherits : vm.heap.Inherits key a b) (live : vm.obj b = some o)
      (is : event = .setProto b proto) (absent : o.find_own_prop key = none)
  | freed {b : Addr} (inherits : vm.heap.Inherits key a b) (is : event = .free b)
      (different : b ≠ a)

def RemembersForeign (vm : PropVM) : PropEvent → Prop
  | .returned v => v ≠ .undefined ∧ ∃ a key, vm.stack.head? = some (.getElem a key)
  | .getElem a key => ∃ b o, vm.heap.Inherits key a b ∧ vm.obj b = some o ∧ o.type.isProxy = true
  | _ => False

/-- An entry is left alone while its object has as many properties, no object is made at an address
that it or the shape cache remembers, and only values of data properties are remembered. -/
structure ElemCareful (pool : Nat → Name) (vm : PropVM) (event : PropEvent) : Prop where
  fresh : vm.ShapesFresh event
  elsewhere : vm.MadeElsewhere event
  unremembered : ∀ {a type proto}, event = .create a type proto →
    ∀ ec, vm.RemembersElem ec → ec.obj ≠ a
  undisturbed : ∀ ec o, vm.RemembersElem ec → vm.obj ec.obj = some o →
    ec.obj_gen = o.props.length → ¬ vm.Disturbs pool event ec.obj ec.key
  ownValues : ¬ vm.RemembersForeign event

def ElemValid (h : Heap) (ec : BCElemCacheEnt) : Prop :=
  ∀ o, h.objs ec.obj = some o → ec.obj_gen ≤ o.props.length ∧
    (ec.obj_gen = o.props.length → o.type.isProxy = false ∧ h.Holds o ec.key ec.value)

structure ElemInv (pool : Nat → Name) (vm : PropVM) : Prop where
  ic : vm.IcInv pool
  valid : ∀ {ec}, vm.RemembersElem ec → ElemValid vm.heap ec

section Step

variable {pool : Nat → Name} {fuel : Nat} {vm vm' : PropVM} {event : PropEvent}
variable {a b : Addr} {o o' : LRObject} {key : LRString} {reply : Reply} {h' : Heap}

theorem made_of_deletes (deletes : event.deletes = true) : event.made = none := by
  cases event <;> first | rfl | cases deletes

/-- A step that does not disturb the read leaves the links it went along. -/
theorem link_step (step : HeapStep pool vm.heap event h') (stays : h'.objs a ≠ none)
    (undisturbed : ¬ vm.Disturbs pool event a key) (inherits : vm.heap.Inherits key a b)
    (live : vm.obj b = some o) : ∃ o', h'.objs b = some o' ∧ o.SameLink key o' := by
  cases step with
  | keeps objs atoms counter => exact ⟨o, objs ▸ live, .refl key o⟩
  | @change target other touched changed =>
    rcases changed.objs with same | ⟨before, after, wasLive, change, objs⟩
    · exact ⟨o, same ▸ live, .refl key o⟩
    · by_cases here : b = target
      · subst here
        obtain rfl : o = before := some.inj (live.symm.trans wasLive)
        refine ⟨after, by rw [objs, update_self], ?_⟩
        by_cases same : key = other
        · subst same
          by_cases deletion : event.deletes = true ∧ o.find_own_prop key = none
          · exact change.link_of_absent deletion.2 ⟨made_of_deletes deletion.1, deletion.1⟩
          · refine (undisturbed (.inherited inherits live touched fun deletes absent => ?_)).elim
            exact deletion ⟨deletes, absent⟩
        · exact change.link_of_ne same
      · exact ⟨o, by rw [objs, update_of_ne here]; exact live, .refl key o⟩
  | @proto c proto before is wasLive result =>
    by_cases here : b = c
    · subst here
      obtain rfl : o = before := some.inj (live.symm.trans wasLive)
      refine ⟨{ o with proto := proto }, by rw [result, Heap.put_self], rfl, rfl, fun absent => ?_⟩
      exact (undisturbed (.inheritedProto inherits live is absent)).elim
    · exact ⟨o, by rw [result, Heap.put_of_ne _ _ here]; exact live, .refl key o⟩
  | @create c type proto is unused result =>
    have different : b ≠ c := by
      rintro rfl
      cases live.symm.trans unused
    refine ⟨o, ?_, .refl key o⟩
    rw [result, lr_new_object, Heap.put_of_ne _ _ different]
    exact live
  | @free c is result =>
    have different : b ≠ c := by
      rintro rfl
      by_cases same : b = a
      · subst same
        exact stays (by rw [result, free_self])
      · exact undisturbed (.freed inherits is same)
    exact ⟨o, by rw [result, free_of_ne _ different]; exact live, .refl key o⟩

/-- Where the count and the key are left, the object gives the answer it gave. -/
theorem answer_step (inv : vm.heap.Inv) (step : HeapStep pool vm.heap event h')
    (live : vm.obj a = some o) (live' : h'.objs a = some o') :
    o.props.length ≤ o'.props.length ∧ (¬ vm.Disturbs pool event a key →
      o'.props.length = o.props.length → o.SameAnswer key o') := by
  have unchanged (same : h'.objs a = vm.obj a) : o.props.length ≤ o'.props.length ∧
      (¬ vm.Disturbs pool event a key → o'.props.length = o.props.length →
        o.SameAnswer key o') := by
    obtain rfl : o' = o := some.inj (live'.symm.trans (same.trans live))
    exact ⟨Nat.le_refl _, fun _ _ => .refl key o'⟩
  cases step with
  | keeps objs atoms counter => exact unchanged (congrFun objs a)
  | @change target other touched changed =>
    rcases changed.objs with same | ⟨before, after, wasLive, change, objs⟩
    · exact unchanged (congrFun same a)
    · by_cases here : a = target
      · subst here
        obtain rfl : o = before := some.inj (live.symm.trans wasLive)
        obtain rfl : after = o' := by
          rw [objs, update_self, some.injEq] at live'
          exact live'
        refine ⟨change.length_le, fun undisturbed sameLength => ?_⟩
        have notLonger : ¬ o.props.length < after.props.length := by
          rw [sameLength]
          exact Nat.lt_irrefl _
        by_cases same : key = other
        · subst same
          by_cases idle : Idle event o key
          · obtain ⟨absent, unrecorded, outside, writes⟩ := idle
            rcases change.idle absent unrecorded outside writes with longer | rfl
            · exact (notLonger longer).elim
            · exact .refl key _
          · exact (undisturbed (.own live touched idle)).elim
        · rcases change.answer_of_ne (inv.wellFormed live) same
            (fun written read => undisturbed (.element live touched written read)) with
            longer | answer
          · exact (notLonger longer).elim
          · exact answer
      · exact unchanged (by rw [objs, update_of_ne here]; rfl)
  | @proto c proto before is wasLive result =>
    by_cases here : a = c
    · subst here
      obtain rfl : o = before := some.inj (live.symm.trans wasLive)
      obtain rfl : { o with proto := proto } = o' := by
        rw [result, Heap.put_self, some.injEq] at live'
        exact live'
      refine ⟨Nat.le_refl _, fun undisturbed _ => ⟨rfl, rfl, fun passes => ?_, rfl, rfl⟩⟩
      exact (undisturbed (.proto is live passes)).elim
    · exact unchanged (by rw [result, Heap.put_of_ne _ _ here]; rfl)
  | @create c type proto is unused result =>
    have different : a ≠ c := by
      rintro rfl
      cases live.symm.trans unused
    exact unchanged (by rw [result, lr_new_object, Heap.put_of_ne _ _ different]; rfl)
  | @free c is result =>
    have different : a ≠ c := by
      rintro rfl
      rw [result, free_self] at live'
      cases live'
    exact unchanged (by rw [result, free_of_ne _ different]; rfl)

theorem live_before (step : HeapStep pool vm.heap event h') (live' : h'.objs a = some o') :
    (∃ o, vm.obj a = some o) ∨ ∃ type proto, event = .create a type proto := by
  cases step with
  | keeps objs atoms counter => exact .inl ⟨o', (congrFun objs a).symm.trans live'⟩
  | @change target other touched changed =>
    rcases changed.objs with same | ⟨before, after, wasLive, change, objs⟩
    · exact .inl ⟨o', (congrFun same a).symm.trans live'⟩
    · by_cases here : a = target
      · subst here
        exact .inl ⟨before, wasLive⟩
      · rw [objs, update_of_ne here] at live'
        exact .inl ⟨o', live'⟩
  | @proto c proto before is wasLive result =>
    by_cases here : a = c
    · subst here
      exact .inl ⟨before, wasLive⟩
    · rw [result, Heap.put_of_ne _ _ here] at live'
      exact .inl ⟨o', live'⟩
  | @create c type proto is unused result =>
    by_cases here : a = c
    · subst here
      exact .inr ⟨type, proto, is⟩
    · rw [result, lr_new_object, Heap.put_of_ne _ _ here] at live'
      exact .inl ⟨o', live'⟩
  | @free c is result =>
    by_cases here : a = c
    · subst here
      rw [result, free_self] at live'
      cases live'
    · rw [result, free_of_ne _ here] at live'
      exact .inl ⟨o', live'⟩

theorem entry_step {ec : BCElemCacheEnt} (inv : vm.ElemInv pool) (remembered : vm.RemembersElem ec)
    (careful : vm.ElemCareful pool event) (step : HeapStep pool vm.heap event h') :
    ElemValid h' ec := by
  intro o' live'
  rcases live_before step live' with ⟨o, live⟩ | ⟨type, proto, created⟩
  · obtain ⟨bound, holds⟩ := inv.valid remembered o live
    obtain ⟨longer, answer⟩ := answer_step inv.ic.heap step live live'
    refine ⟨bound.trans longer, fun current => ?_⟩
    have same : ec.obj_gen = o.props.length := bound.antisymm (longer.trans_eq current.symm)
    have undisturbed := careful.undisturbed ec o remembered live same
    have kept := answer undisturbed (current.symm.trans same)
    obtain ⟨notProxy, held⟩ := holds same
    refine ⟨kept.isProxy.trans notProxy, held.frame live kept fun b po inherits was => ?_⟩
    exact link_step step (by rw [live']; exact some_ne_none o') undisturbed inherits was
  · exact (careful.unremembered created ec remembered rfl).elim

theorem fill_step {v : LRValue} (inv : vm.ElemInv pool) (careful : vm.ElemCareful pool event)
    (step : HeapStep pool vm.heap event h') (live' : h'.objs a = some o)
    (defined : v ≠ .undefined) (notProxy : o.type.isProxy = false)
    (source : (event = .returned v ∧ vm.stack.head? = some (.getElem a key)) ∨
      (event = .getElem a key ∧ ∃ h', lr_get_property fuel vm.heap a key = some (h', .value v))) :
    ElemValid h' ⟨a, key, v, o.props.length⟩ := by
  rcases source with ⟨rfl, top⟩ | ⟨rfl, result, read⟩
  · exact (careful.ownValues ⟨defined, a, key, top⟩).elim
  · have objs : h'.objs = vm.heap.objs := by
      cases step with
      | keeps objs atoms counter => exact objs
      | change touched changed => cases touched
      | proto is live result | create is unused result | free is result => cases is
    have live : vm.obj a = some o := (congrFun objs a).symm.trans live'
    have unproxied (b : Addr) (po : LRObject) (inherits : vm.heap.Inherits key a b)
        (live : vm.heap.objs b = some po) : po.type.isProxy = false := by
      cases isProxy : po.type.isProxy with
      | false => rfl
      | true => exact (careful.ownValues ⟨b, po, inherits, live, isProxy⟩).elim
    have holds : vm.heap.Holds o key v :=
      holds_of_get (inv.ic.heap.wellFormed live) live notProxy unproxied defined read
    intro o' live''
    obtain rfl : o = o' := some.inj (live'.symm.trans live'')
    refine ⟨Nat.le_refl _, fun _ => ⟨notProxy, ?_⟩⟩
    exact holds.frame live (.refl key o) fun b po _ was => ⟨po, objs ▸ was, .refl key po⟩

theorem ElemInv.step (inv : vm.ElemInv pool) (careful : vm.ElemCareful pool event)
    (run : vm.step pool fuel event = some (vm', reply)) : vm'.ElemInv pool := by
  have cases_ := step_cases (fun _ _ _ _ _ => icHit_spec inv.ic) run
  have old {ec : BCElemCacheEnt} (remembered : vm.RemembersElem ec) : ElemValid vm'.heap ec :=
    entry_step inv remembered careful cases_.heap
  refine ⟨inv.ic.step careful.fresh run, ?_⟩
  rintro ec ⟨caches, member, ci, remembered⟩
  rcases cases_.layers caches member with before | filled
  · exact old ⟨caches, before, ci, remembered⟩
  · cases filled with
    | ic si _ =>
      rw [PropCaches.icFill_elem] at remembered
      exact old ⟨vm.caches, mem_cons_self, ci, remembered⟩
    | elem live source =>
      rcases PropCaches.elemFill_cases remembered with before | ⟨defined, notProxy, rfl⟩
      · exact old ⟨vm.caches, mem_cons_self, ci, before⟩
      · exact fill_step inv careful cases_.heap live defined notProxy source

end Step

/-! ## Runs -/

def ElemTransparent (pool : Nat → Name) (fuel : Nat) (vm : PropVM) (event : PropEvent) : Prop :=
  ∀ vm' reply, vm.step pool fuel event = some (vm', reply) →
    match event with
    | .getElem a key => ∀ o v, vm.obj a = some o → vm.caches.elemHit a o key = some v →
        ∃ enough, ∀ fuel' ≥ enough,
          (lr_get_property fuel' vm.heap a key).map Prod.snd = some reply
    | .setElem a key val at_ => lr_set_property fuel vm.heap a key val at_ =
        some (vm'.heap, reply)
    | _ => True

theorem ElemInv.transparent {pool : Nat → Name} {fuel : Nat} {vm : PropVM} {event : PropEvent}
    (inv : vm.ElemInv pool) : vm.ElemTransparent pool fuel event := by
  intro vm' reply run
  cases event with
  | getElem a key =>
    intro o v live hit
    simp only [PropVM.step, getElem, live, hit, bind_eq_bind, bind_some,
      some.injEq, Prod.mk.injEq] at run
    obtain ⟨-, rfl⟩ := run
    simp only [PropCaches.elemHit, bind_eq_bind, bind_eq_some_iff] at hit
    obtain ⟨ec, remembered, hit⟩ := hit
    split at hit
    · next matches_ =>
        cases hit
        obtain ⟨notProxy, rfl, rfl, current⟩ := matches_
        have valid := inv.valid ⟨vm.caches, mem_cons_self, _, remembered⟩ o live
        exact lr_get_property_of_holds (inv.ic.heap.wellFormed live) live notProxy
          (valid.2 current).2
    · cases hit
  | setElem a key val at_ => exact (engine_cases run).1
  | _ => trivial

end PropVM

def elementRead : List PropEvent :=
  [.create 1 .plain .null, .set 1 ⟨"a", 0⟩ (.int32 1) 100, .getElem 1 ⟨"a", 0⟩,
    .getElem 1 ⟨"a", 0⟩]

/-- `o = { a: 1 }; o[k]; o[k] = 2; o[k]` with `k = "a"`: the second read answers with
the value that the first one remembered. -/
def staleElement : List PropEvent :=
  [.create 1 .plain .null, .set 1 ⟨"a", 0⟩ (.int32 1) 100, .getElem 1 ⟨"a", 0⟩,
    .setElem 1 ⟨"a", 0⟩ (.int32 2) 101]

end LRJS
