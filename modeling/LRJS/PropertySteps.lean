import LRJS.Changes
import LRJS.PropertySites

/-!
# What an event can do

Whatever happens to the machine, the heap changes at one object in a known way,
and the caches that are in use or saved are the old ones or one that was filled
from the current state of an object.  The invariants of the caches look at
events only through these facts.
-/

namespace LRJS

open List Option

namespace PropEvent

def made : PropEvent → Option Addr
  | .set _ _ _ at_ | .define _ _ _ at_ | .setProp _ _ _ at_ | .setElem _ _ _ at_
  | .setIndex _ _ _ at_ => some at_
  | _ => none

def deletes : PropEvent → Bool
  | .delete _ _ => true
  | _ => false

def touches (pool : Nat → Name) (h : Heap) : PropEvent → Option (Addr × LRString)
  | .set a key _ _ | .define a key _ _ | .setElem a key _ _ | .delete a key =>
    some (h.reached a, key)
  | .setProp a si _ _ => some (h.reached a, h.atom (pool si))
  | .setIndex a idx _ _ => some (h.reached a, h.atom (toString idx))
  | .accessor a key _ _ => some (a, key)
  | _ => none

end PropEvent

inductive HeapStep (pool : Nat → Name) (h : Heap) (event : PropEvent) (h' : Heap) : Prop where
  | keeps (objs : h'.objs = h.objs) (atoms : h'.atoms = h.atoms)
      (counter : h'.next_prop = h.next_prop)
  | change {target : Addr} {key : LRString} (touched : event.touches pool h = some (target, key))
      (changed : HeapChange key event.made event.deletes target h h')
  | proto {a : Addr} {proto : LRValue} {o : LRObject} (is : event = .setProto a proto)
      (live : h.objs a = some o) (result : h' = h.put a { o with proto := proto })
  | create {a : Addr} {type : LRObjectType} {proto : LRValue}
      (is : event = .create a type proto) (unused : h.objs a = none)
      (result : h' = lr_new_object h a type proto)
  | free {a : Addr} (is : event = .free a) (result : h' = lr_free_object h a)

def PropFrame.saved : PropFrame → Option PropCaches
  | .snapshot caches => some caches
  | _ => none

namespace PropVM

def layers (vm : PropVM) : List PropCaches :=
  vm.caches :: vm.stack.filterMap PropFrame.saved

def RemembersIc (vm : PropVM) (cp : BCICPropCache) : Prop :=
  ∃ caches ∈ vm.layers, ∃ ci, caches.ic ci = some cp

def RemembersElem (vm : PropVM) (ec : BCElemCacheEnt) : Prop :=
  ∃ caches ∈ vm.layers, ∃ ci, caches.elem ci = some ec

def start (atoms : Name → Addr) : PropVM :=
  ⟨⟨fun _ => none, fun _ => none, atoms, 0⟩, .empty, []⟩

theorem start_layers {atoms : Name → Addr} {caches : PropCaches}
    (member : caches ∈ (start atoms).layers) : caches = .empty := by
  simpa [layers, start] using member

/-- Caches that an event filled, which left the heap `h'`. -/
inductive Filled (pool : Nat → Name) (fuel : Nat) (vm : PropVM) (event : PropEvent)
    (h' : Heap) : PropCaches → Prop where
  | ic {a : Addr} {o : LRObject} (si : Nat) (live : h'.objs a = some o) :
      Filled pool fuel vm event h' (vm.caches.icFill o si (h'.atom (pool si)))
  | elem {a : Addr} {o : LRObject} {key : LRString} {v : LRValue} (live : h'.objs a = some o)
      (source : (event = .returned v ∧ vm.stack.head? = some (.getElem a key)) ∨
        (event = .getElem a key ∧ ∃ h', lr_get_property fuel vm.heap a key = some (h', .value v))) :
      Filled pool fuel vm event h' (vm.caches.elemFill a o key v)

def HitsRecorded (pool : Nat → Name) (vm : PropVM) : Prop :=
  ∀ a o si slot, vm.obj a = some o → vm.caches.icHit o si = some slot →
    o.type.isProxy = false ∧ o.shape_get_slot (vm.atom pool si) = some slot

section Parts

variable {pool : Nat → Name} {fuel : Nat} {vm vm' : PropVM} {a : Addr} {si : Nat}
variable {caches : PropCaches}

variable {frame : PropFrame}

@[simp] theorem await_heap {reply : Reply} : (vm.await frame reply).heap = vm.heap := by
  unfold await
  split <;> rfl

theorem await_layers (unsaved : frame.saved = none) {reply : Reply} :
    (vm.await frame reply).layers = vm.layers := by
  unfold await
  split
  · rw [layers, layers, filterMap_cons_none unsaved]
  · rfl

theorem engine_cases {result : Option (Heap × Reply)} {reply : Reply}
    (run : vm.engine result = some (vm', reply)) :
    result = some (vm'.heap, reply) ∧ vm'.layers = vm.layers := by
  simp only [engine, map_eq_some_iff, Prod.exists, Prod.mk.injEq] at run
  obtain ⟨heap, answered, ran, rfl, rfl⟩ := run
  constructor
  · rw [ran, await_heap]
  · exact await_layers rfl

@[simp] theorem fillIc_heap {atom : LRString} : (vm.fillIc a si atom).heap = vm.heap := by
  unfold fillIc
  split <;> rfl

theorem fillIc_layers {atom : LRString} (member : caches ∈ (vm.fillIc a si atom).layers) :
    caches ∈ vm.layers ∨ ∃ o, vm.obj a = some o ∧ caches = vm.caches.icFill o si atom := by
  unfold fillIc at member
  split at member
  · next o live =>
      rcases mem_cons.mp member with rfl | saved
      · exact .inr ⟨o, live, rfl⟩
      · exact .inl (mem_cons_of_mem _ saved)
  · exact .inl member

@[simp] theorem fillElem_heap {key : LRString} {v : LRValue} :
    (vm.fillElem a key v).heap = vm.heap := by
  unfold fillElem
  split <;> rfl

theorem fillElem_layers {key : LRString} {v : LRValue}
    (member : caches ∈ (vm.fillElem a key v).layers) :
    caches ∈ vm.layers ∨ ∃ o, vm.obj a = some o ∧ caches = vm.caches.elemFill a o key v := by
  unfold fillElem at member
  split at member
  · next o live =>
      rcases mem_cons.mp member with rfl | saved
      · exact .inr ⟨o, live, rfl⟩
      · exact .inl (mem_cons_of_mem _ saved)
  · exact .inl member

theorem pop_layers {stack : List PropFrame} (top : vm.stack = frame :: stack)
    (member : caches ∈ ({ vm with stack := stack } : PropVM).layers) : caches ∈ vm.layers := by
  rcases mem_cons.mp member with rfl | saved
  · exact mem_cons_self
  · rw [layers, top]
    refine mem_cons_of_mem _ ?_
    rw [filterMap_cons]
    split
    · exact saved
    · exact mem_cons_of_mem _ saved

end Parts

structure StepCases (pool : Nat → Name) (fuel : Nat) (vm : PropVM) (event : PropEvent)
    (vm' : PropVM) : Prop where
  heap : HeapStep pool vm.heap event vm'.heap
  layers : ∀ caches ∈ vm'.layers, caches ∈ vm.layers ∨ Filled pool fuel vm event vm'.heap caches

namespace StepCases

variable {pool : Nat → Name} {fuel : Nat} {vm vm' : PropVM} {event : PropEvent}
variable {a : Addr} {si : Nat} {key : LRString} {reply : Reply}

theorem of_heap (heap : HeapStep pool vm.heap event vm'.heap)
    (layers : vm'.layers = vm.layers) : StepCases pool fuel vm event vm' :=
  ⟨heap, fun _ member => .inl (layers ▸ member)⟩

theorem refl : StepCases pool fuel vm event vm :=
  of_heap (.keeps rfl rfl rfl) rfl

theorem engine {result : Option (Heap × Reply)}
    (heap : ∀ h' reply, result = some (h', reply) → HeapStep pool vm.heap event h')
    (run : vm.engine result = some (vm', reply)) : StepCases pool fuel vm event vm' :=
  of_heap (heap _ _ (engine_cases run).1) (engine_cases run).2

variable {vm₁ : PropVM}

theorem fillIc (before : HeapStep pool vm.heap event vm₁.heap)
    (sameCaches : vm₁.caches = vm.caches) (sameLayers : ∀ caches ∈ vm₁.layers, caches ∈ vm.layers) :
    StepCases pool fuel vm event (vm₁.fillIc a si (vm₁.atom pool si)) where
  heap := fillIc_heap.symm ▸ before
  layers := fun caches member => by
    rcases fillIc_layers member with old | ⟨o, live, rfl⟩
    · exact .inl (sameLayers caches old)
    · rw [fillIc_heap, sameCaches]
      exact .inr (.ic si live)

theorem readDone {always : Bool} {v : LRValue} (before : HeapStep pool vm.heap event vm₁.heap)
    (sameCaches : vm₁.caches = vm.caches) (sameLayers : ∀ caches ∈ vm₁.layers, caches ∈ vm.layers) :
    StepCases pool fuel vm event (vm₁.readDone pool always a si v) := by
  unfold PropVM.readDone
  split
  · exact fillIc before sameCaches sameLayers
  · exact ⟨before, fun caches member => .inl (sameLayers caches member)⟩

theorem fillElem {v : LRValue} (before : HeapStep pool vm.heap event vm₁.heap)
    (sameCaches : vm₁.caches = vm.caches) (sameLayers : ∀ caches ∈ vm₁.layers, caches ∈ vm.layers)
    (source : (event = .returned v ∧ vm.stack.head? = some (.getElem a key)) ∨
      (event = .getElem a key ∧ ∃ h', lr_get_property fuel vm.heap a key = some (h', .value v))) :
    StepCases pool fuel vm event (vm₁.fillElem a key v) where
  heap := fillElem_heap.symm ▸ before
  layers := fun caches member => by
    rcases fillElem_layers member with old | ⟨o, live, rfl⟩
    · exact .inl (sameLayers caches old)
    · rw [fillElem_heap, sameCaches]
      exact .inr (.elem live source)

theorem await {frame : PropFrame} (before : HeapStep pool vm.heap event vm₁.heap)
    (sameLayers : vm₁.layers = vm.layers) (unsaved : frame.saved = none) :
    StepCases pool fuel vm event (vm₁.await frame reply) :=
  of_heap (await_heap.symm ▸ before) ((await_layers unsaved).trans sameLayers)

theorem readMiss {always : Bool} {frame : PropFrame} (unsaved : frame.saved = none)
    (run : vm.readMiss pool fuel always frame a si = some (vm', reply)) :
    StepCases pool fuel vm event vm' := by
  simp only [PropVM.readMiss, bind_eq_bind, bind_eq_some_iff] at run
  obtain ⟨⟨heap, fetched⟩, read, run⟩ := run
  obtain ⟨objs, atoms, counter⟩ := lr_get_property_objs read
  split at run
  · cases run
    exact readDone (.keeps objs atoms counter) rfl fun _ member => member
  · cases run
    exact await (.keeps objs atoms counter) rfl unsaved

theorem getProp (run : vm.getProp pool fuel a si = some (vm', reply)) :
    StepCases pool fuel vm event vm' := by
  simp only [PropVM.getProp, bind_eq_bind, bind_eq_some_iff] at run
  obtain ⟨o, _, run⟩ := run
  split at run
  · cases run
    exact refl
  · split at run
    · split at run
      · cases run
        exact refl
      · exact readMiss rfl run
    · exact readMiss rfl run

theorem loadPropAdd (run : vm.loadPropAdd pool fuel a si = some (vm', reply)) :
    StepCases pool fuel vm event vm' := by
  simp only [PropVM.loadPropAdd, bind_eq_bind, bind_eq_some_iff] at run
  obtain ⟨o, _, run⟩ := run
  split at run
  · cases run
    exact refl
  · exact readMiss rfl run

theorem setProp {val : LRValue} {at_ : Addr} (hits : vm.HitsRecorded pool)
    (run : vm.setProp pool fuel a si val at_ = some (vm', reply)) :
    StepCases pool fuel vm (.setProp a si val at_) vm' := by
  simp only [PropVM.setProp, bind_eq_bind, bind_eq_some_iff] at run
  obtain ⟨o, live, run⟩ := run
  split at run
  · next slot hit =>
      cases run
      obtain ⟨notProxy, recorded⟩ := hits a o si slot live hit
      refine of_heap (.change rfl ?_) rfl
      rw [reached_of_not_proxy live notProxy]
      exact .put live (.slot val recorded)
  · simp only [bind_eq_some_iff] at run
    obtain ⟨⟨heap, answered⟩, written, run⟩ := run
    have changed : HeapStep pool vm.heap (.setProp a si val at_) heap :=
      .change rfl (change_lr_set_property written)
    split at run
    · cases run
      exact await changed rfl rfl
    · cases run
      exact fillIc changed rfl fun _ member => member

theorem getElem (run : vm.getElem fuel a key = some (vm', reply)) :
    StepCases pool fuel vm (.getElem a key) vm' := by
  simp only [PropVM.getElem, bind_eq_bind, bind_eq_some_iff] at run
  obtain ⟨o, _, run⟩ := run
  split at run
  · cases run
    exact refl
  · simp only [bind_eq_some_iff] at run
    obtain ⟨⟨heap, fetched⟩, read, run⟩ := run
    obtain ⟨objs, atoms, counter⟩ := lr_get_property_objs read
    split at run
    · next v fetched =>
        cases run
        subst fetched
        exact fillElem (.keeps objs atoms counter) rfl (fun _ member => member)
          (.inr ⟨rfl, heap, read⟩)
    · cases run
      exact await (.keeps objs atoms counter) rfl rfl

theorem getIndex {idx : Nat} (run : vm.getIndex fuel a idx = some (vm', reply)) :
    StepCases pool fuel vm event vm' := by
  simp only [PropVM.getIndex, bind_eq_bind, bind_eq_some_iff] at run
  obtain ⟨o, _, run⟩ := run
  have slow (run : vm.engine (lr_get_property_uint32 fuel vm.heap a idx) = some (vm', reply)) :
      StepCases pool fuel vm event vm' := by
    refine engine (fun h' reply read => ?_) run
    obtain ⟨objs, atoms, counter⟩ := lr_get_property_uint32_objs read
    exact .keeps objs atoms counter
  split at run
  · split at run
    · cases run
      exact refl
    · exact slow run
  · exact slow run

theorem setIndex {idx : Nat} {val : LRValue} {at_ : Addr} (small : idx < 2 ^ 31)
    (run : vm.setIndex fuel a idx val at_ = some (vm', reply)) :
    StepCases pool fuel vm (.setIndex a idx val at_) vm' := by
  simp only [PropVM.setIndex, bind_eq_bind, bind_eq_some_iff] at run
  obtain ⟨o, live, run⟩ := run
  have slow (run : vm.engine (lr_set_property_uint32 fuel vm.heap a idx val at_) =
      some (vm', reply)) : StepCases pool fuel vm (.setIndex a idx val at_) vm' :=
    engine (fun _ _ written => .change rfl (change_lr_set_property_uint32 small written)) run
  split at run
  · next ad type =>
    split at run
    · cases run
      have inside : o.type.Indexes (vm.heap.atom (toString idx)) := by
        rw [type]
        exact .inr (.inr ⟨idx, small, rfl⟩)
      refine of_heap (.change rfl ?_) rfl
      rw [reached_of_not_proxy live (by rw [type]; rfl)]
      exact .put live (.elements _ inside (.inl ⟨ad, _, type, rfl⟩) (.same _))
    · exact slow run
  · exact slow run

theorem resume {v : LRValue} (run : vm.resume pool v = some vm') :
    StepCases pool fuel vm (.returned v) vm' := by
  unfold PropVM.resume at run
  split at run
  · next top =>
      cases run
      exact readDone (.keeps rfl rfl rfl) rfl fun _ member => pop_layers top member
  · next top =>
      cases run
      exact readDone (.keeps rfl rfl rfl) rfl fun _ member => pop_layers top member
  · next top =>
      cases run
      exact fillIc (.keeps rfl rfl rfl) rfl fun _ member => pop_layers top member
  · next top =>
      cases run
      exact fillElem (.keeps rfl rfl rfl) rfl (fun _ member => pop_layers top member)
        (.inl ⟨rfl, by rw [top, head?_cons]⟩)
  · next top =>
      cases run
      exact ⟨.keeps rfl rfl rfl, fun _ member => .inl (pop_layers top member)⟩
  · cases run

end StepCases

/-- What one step of the machine can do to the heap and to the caches. -/
theorem step_cases {pool : Nat → Name} {fuel : Nat} {vm vm' : PropVM} {event : PropEvent}
    {reply : Reply} (hits : ∀ a si val at_, event = .setProp a si val at_ → vm.HitsRecorded pool)
    (run : vm.step pool fuel event = some (vm', reply)) : StepCases pool fuel vm event vm' := by
  cases event with
  | set a key val at_ | define a key val at_ | setElem a key val at_ =>
    exact .engine (fun _ _ written => .change rfl (change_lr_set_property written)) run
  | accessor a key getter setter =>
    exact .engine (fun _ _ written => .change rfl (change_lr_set_accessor_property written)) run
  | delete a key =>
    exact .engine (fun _ _ written => .change rfl (change_lr_delete_property written)) run
  | get a key =>
    refine .engine (fun _ _ read => ?_) run
    obtain ⟨objs, atoms, counter⟩ := lr_get_property_objs read
    exact .keeps objs atoms counter
  | setProto a proto =>
    refine .engine (fun _ _ written => ?_) run
    simp only [lr_set_prototype, bind_eq_bind, bind_eq_some_iff] at written
    obtain ⟨o, live, written⟩ := written
    cases written
    exact .proto rfl live rfl
  | create a type proto =>
    simp only [PropVM.step] at run
    split at run
    · next unused =>
        cases run
        exact .of_heap (.create rfl (isNone_iff_eq_none.mp unused) rfl) rfl
    · cases run
  | free a =>
    cases run
    exact .of_heap (.free rfl rfl) rfl
  | getProp a si => exact .getProp run
  | loadPropAdd a si => exact .loadPropAdd run
  | setProp a si val at_ => exact .setProp (hits a si val at_ rfl) run
  | getElem a key => exact .getElem run
  | getIndex a idx =>
    simp only [PropVM.step] at run
    split at run
    · exact .getIndex run
    · cases run
  | setIndex a idx val at_ =>
    simp only [PropVM.step] at run
    split at run
    · next small => exact .setIndex small run
    · cases run
  | returned v =>
    simp only [PropVM.step, map_eq_some_iff, Prod.mk.injEq] at run
    obtain ⟨resumed, ran, rfl, _⟩ := run
    exact .resume ran
  | evalNode =>
    cases run
    refine ⟨.keeps rfl rfl rfl, fun caches member => .inl ?_⟩
    simpa [layers, PropFrame.saved] using member
  | evalDone =>
    simp only [PropVM.step] at run
    split at run
    · next caches stack top =>
        cases run
        refine ⟨.keeps rfl rfl rfl, fun layer member => .inl ?_⟩
        rw [layers, top]
        exact mem_cons_of_mem _ member
    · cases run

end PropVM

end LRJS
