import LRJS.PropertyWrites

/-!
# Property access in the machine

The property instructions of one program (`lr_bytecode_exec.c`) and its two property caches
(`lr_bytecode_cache.c`), next to everything else that can happen to the objects.

A function that an operation calls runs arbitrary code until the matching `returned`.  The machine
saves the caches around a delegated subtree.  The dynamic result cache is left out: `BC_GET_PROP`
invalidates its entry right after filling it.
-/

namespace LRJS

/-- An entry of `bc_ic_prop`. -/
structure BCICPropCache where
  shape : Addr
  shape_version : Nat
  name_idx : Nat
  slot : Nat
deriving DecidableEq, Repr

/-- An entry of `bc_elem_cache`. -/
structure BCElemCacheEnt where
  obj : Addr
  key : LRString
  value : LRValue
  obj_gen : Nat
deriving DecidableEq, Repr

/-- The property caches of a program; `none` is an invalid entry. -/
structure PropCaches where
  ic : Nat → Option BCICPropCache
  elem : Nat → Option BCElemCacheEnt

namespace PropCaches

def empty : PropCaches :=
  ⟨fun _ => none, fun _ => none⟩

/-- `name_idx & (BC_IC_PROP_SIZE - 1)`. -/
def icIndex (si : Nat) : Nat :=
  si &&& 255

/-- `(obj ^ atom) & (BC_ELEM_CACHE_SIZE - 1)`. -/
def elemIndex (obj : Addr) (atom : LRString) : Nat :=
  (obj ^^^ atom.addr) &&& 255

def icHit (caches : PropCaches) (o : LRObject) (si : Nat) : Option Nat := do
  let cp ← caches.ic (icIndex si)
  let shape ← o.shape
  if o.props ≠ [] ∧ o.type.isProxy = false ∧ cp.shape = shape.addr ∧
      cp.shape_version = shape.version ∧ cp.name_idx = si then
    some cp.slot
  else
    none

def icFill (caches : PropCaches) (o : LRObject) (si : Nat) (atom : LRString) : PropCaches :=
  match o.shape, o.slotInside atom with
  | some shape, some slot =>
    if o.props ≠ [] ∧ o.type.isProxy = false then
      let entry : BCICPropCache := ⟨shape.addr, shape.version, si, slot⟩
      { caches with ic := Function.update caches.ic (icIndex si) (some entry) }
    else
      caches
  | _, _ => caches

/-- The value that `BC_GET_ELEM` finds in its cache entry. -/
def elemHit (caches : PropCaches) (a : Addr) (o : LRObject) (atom : LRString) :
    Option LRValue := do
  let ec ← caches.elem (elemIndex a atom)
  if o.type.isProxy = false ∧ ec.obj = a ∧ ec.key = atom ∧ ec.obj_gen = o.props.length then
    some ec.value
  else
    none

def elemFill (caches : PropCaches) (a : Addr) (o : LRObject) (atom : LRString) (v : LRValue) :
    PropCaches :=
  if v ≠ .undefined ∧ o.type.isProxy = false then
    let entry : BCElemCacheEnt := ⟨a, atom, v, o.props.length⟩
    { caches with elem := Function.update caches.elem (elemIndex a atom) (some entry) }
  else
    caches

variable {caches : PropCaches} {o : LRObject} {atom : LRString}

/-- An entry behind a fill was there before or is the one of the slot. -/
theorem icFill_cases {si ci : Nat} {cp : BCICPropCache}
    (after : (caches.icFill o si atom).ic ci = some cp) :
    caches.ic ci = some cp ∨ ∃ shape slot, o.shape = some shape ∧
      o.slotInside atom = some slot ∧ cp = ⟨shape.addr, shape.version, si, slot⟩ := by
  unfold icFill at after
  split at after
  · next shape slot shaped inside =>
      split at after
      · dsimp only at after
        by_cases here : ci = icIndex si
        · rw [here, Function.update_self, Option.some.injEq] at after
          exact .inr ⟨shape, slot, shaped, inside, after.symm⟩
        · rw [Function.update_of_ne here] at after
          exact .inl after
      · exact .inl after
  · exact .inl after

/-- An entry behind a fill was there before or remembers the value. -/
theorem elemFill_cases {a : Addr} {v : LRValue} {ci : Nat} {ec : BCElemCacheEnt}
    (after : (caches.elemFill a o atom v).elem ci = some ec) :
    caches.elem ci = some ec ∨
      (v ≠ .undefined ∧ o.type.isProxy = false ∧ ec = ⟨a, atom, v, o.props.length⟩) := by
  unfold elemFill at after
  split at after
  · next fills =>
      dsimp only at after
      by_cases here : ci = elemIndex a atom
      · rw [here, Function.update_self, Option.some.injEq] at after
        exact .inr ⟨fills.1, fills.2, after.symm⟩
      · rw [Function.update_of_ne here] at after
        exact .inl after
  · exact .inl after

@[simp] theorem icFill_elem {si : Nat} : (caches.icFill o si atom).elem = caches.elem := by
  unfold icFill
  split
  · split <;> rfl
  · rfl

@[simp] theorem elemFill_ic {a : Addr} {v : LRValue} :
    (caches.elemFill a o atom v).ic = caches.ic := by
  unfold elemFill
  split <;> rfl

end PropCaches

inductive PropFrame where
  | getProp (a : Addr) (si : Nat)
  | loadPropAdd (a : Addr) (si : Nat)
  | setProp (a : Addr) (si : Nat)
  | getElem (a : Addr) (key : LRString)
  | other
  | snapshot (caches : PropCaches)

structure PropVM where
  heap : Heap
  caches : PropCaches
  stack : List PropFrame

/-- The engine's operations on any object, and the instructions on an object with a name of the
pool, an atom as computed key, or a non-negative integer. -/
inductive PropEvent where
  | set (a : Addr) (key : LRString) (val : LRValue) (at_ : Addr)
  | define (a : Addr) (key : LRString) (val : LRValue) (at_ : Addr)
  | accessor (a : Addr) (key : LRString) (getter setter : LRValue)
  | get (a : Addr) (key : LRString)
  | delete (a : Addr) (key : LRString)
  | setProto (a : Addr) (proto : LRValue)
  | create (a : Addr) (type : LRObjectType) (proto : LRValue)
  | free (a : Addr)
  | getProp (a : Addr) (si : Nat)
  | loadPropAdd (a : Addr) (si : Nat)
  | setProp (a : Addr) (si : Nat) (val : LRValue) (at_ : Addr)
  | getElem (a : Addr) (key : LRString)
  | setElem (a : Addr) (key : LRString) (val : LRValue) (at_ : Addr)
  | getIndex (a : Addr) (idx : Nat)
  | setIndex (a : Addr) (idx : Nat) (val : LRValue) (at_ : Addr)
  | returned (v : LRValue)
  | evalNode
  | evalDone

namespace PropVM

def obj (vm : PropVM) (a : Addr) : Option LRObject :=
  vm.heap.objs a

def await (vm : PropVM) (frame : PropFrame) : Reply → PropVM
  | .call _ _ _ _ => { vm with stack := frame :: vm.stack }
  | _ => vm

def engine (vm : PropVM) (result : Option (Heap × Reply)) : Option (PropVM × Reply) :=
  result.map fun (heap, reply) => ({ vm with heap }.await .other reply, reply)

def fillIc (vm : PropVM) (a : Addr) (si : Nat) (atom : LRString) : PropVM :=
  match vm.obj a with
  | some o => { vm with caches := vm.caches.icFill o si atom }
  | none => vm

def fillElem (vm : PropVM) (a : Addr) (key : LRString) (v : LRValue) : PropVM :=
  match vm.obj a with
  | some o => { vm with caches := vm.caches.elemFill a o key v }
  | none => vm

section Instructions

variable (pool : Nat → Name) (fuel : Nat)

def atom (vm : PropVM) (si : Nat) : LRString :=
  vm.heap.atom (pool si)

/-- What follows the lookup of a named read; `LOAD_PROP_ADD` fills the cache
also for an undefined value. -/
def readDone (vm : PropVM) (always : Bool) (a : Addr) (si : Nat) (v : LRValue) : PropVM :=
  if always || v ≠ .undefined then vm.fillIc a si (vm.atom pool si) else vm

def readMiss (vm : PropVM) (always : Bool) (frame : PropFrame) (a : Addr) (si : Nat) :
    Option (PropVM × Reply) := do
  let (heap, reply) ← lr_get_property fuel vm.heap a (vm.atom pool si)
  let vm := { vm with heap }
  match reply with
  | .value v => some (vm.readDone pool always a si v, reply)
  | _ => some (vm.await frame reply, reply)

/-- `BC_GET_PROP` and `BC_LOAD_PROP` on an object. -/
def getProp (vm : PropVM) (a : Addr) (si : Nat) : Option (PropVM × Reply) := do
  let o ← vm.obj a
  match vm.caches.icHit o si with
  | some slot => some (vm, .value (o.slotValue slot))
  | none =>
    match o.type with
    | .array (some ad) =>
      if pool si = "length" then
        some (vm, .value (.int32 (castInt32 ad.length)))
      else
        vm.readMiss pool fuel false (.getProp a si) a si
    | _ => vm.readMiss pool fuel false (.getProp a si) a si

/-- The property part of `BC_LOAD_PROP_ADD` on an object. -/
def loadPropAdd (vm : PropVM) (a : Addr) (si : Nat) : Option (PropVM × Reply) := do
  let o ← vm.obj a
  match vm.caches.icHit o si with
  | some slot => some (vm, .value (o.slotValue slot))
  | none => vm.readMiss pool fuel true (.loadPropAdd a si) a si

/-- `BC_SET_PROP` on an object. -/
def setProp (vm : PropVM) (a : Addr) (si : Nat) (val : LRValue) (at_ : Addr) :
    Option (PropVM × Reply) := do
  let o ← vm.obj a
  match vm.caches.icHit o si with
  | some slot => some ({ vm with heap := vm.heap.put a (o.setSlot slot val) }, .status 0)
  | none => do
      let (heap, reply) ← lr_set_property fuel vm.heap a (vm.atom pool si) val at_
      let vm := { vm with heap }
      match reply with
      | .call _ _ _ _ => some (vm.await (.setProp a si) reply, reply)
      | _ => some (vm.fillIc a si (vm.atom pool si), reply)

/-- `BC_GET_ELEM` with a key that is not a non-negative integer. -/
def getElem (vm : PropVM) (a : Addr) (key : LRString) : Option (PropVM × Reply) := do
  let o ← vm.obj a
  match vm.caches.elemHit a o key with
  | some v => some (vm, .value v)
  | none => do
      let (heap, reply) ← lr_get_property fuel vm.heap a key
      let vm := { vm with heap }
      match reply with
      | .value v => some (vm.fillElem a key v, reply)
      | _ => some (vm.await (.getElem a key) reply, reply)

/-- `BC_GET_ELEM` with a non-negative integer. -/
def getIndex (vm : PropVM) (a : Addr) (idx : Nat) : Option (PropVM × Reply) := do
  let o ← vm.obj a
  match o.type with
  | .array (some ad) =>
    if idx < ad.length then
      some (vm, .value (ad.elements idx))
    else
      vm.engine (lr_get_property_uint32 fuel vm.heap a idx)
  | _ => vm.engine (lr_get_property_uint32 fuel vm.heap a idx)

/-- `BC_SET_ELEM` with a non-negative integer. -/
def setIndex (vm : PropVM) (a : Addr) (idx : Nat) (val : LRValue) (at_ : Addr) :
    Option (PropVM × Reply) := do
  let o ← vm.obj a
  match o.type with
  | .array (some ad) =>
    if idx ≤ ad.length then
      let written := { o with type := .array (some (ad.write idx val)) }
      some ({ vm with heap := vm.heap.put a written }, .status 0)
    else
      vm.engine (lr_set_property_uint32 fuel vm.heap a idx val at_)
  | _ => vm.engine (lr_set_property_uint32 fuel vm.heap a idx val at_)

def resume (vm : PropVM) (v : LRValue) : Option PropVM :=
  match vm.stack with
  | .getProp a si :: stack => some ({ vm with stack }.readDone pool false a si v)
  | .loadPropAdd a si :: stack => some ({ vm with stack }.readDone pool true a si v)
  | .setProp a si :: stack => some ({ vm with stack }.fillIc a si (vm.atom pool si))
  | .getElem a key :: stack => some ({ vm with stack }.fillElem a key v)
  | .other :: stack => some { vm with stack }
  | _ => none

def step (vm : PropVM) : PropEvent → Option (PropVM × Reply)
  | .set a key val at_ => vm.engine (lr_set_property fuel vm.heap a key val at_)
  | .define a key val at_ => vm.engine (lr_define_property_value fuel vm.heap a key val at_)
  | .accessor a key getter setter =>
    vm.engine (lr_set_accessor_property vm.heap a key getter setter)
  | .get a key => vm.engine (lr_get_property fuel vm.heap a key)
  | .delete a key => vm.engine (lr_delete_property fuel vm.heap a key)
  | .setProto a proto => vm.engine (lr_set_prototype vm.heap a proto)
  | .create a type proto =>
    if (vm.obj a).isNone then
      some ({ vm with heap := lr_new_object vm.heap a type proto }, .status 0)
    else
      none
  | .free a => some ({ vm with heap := lr_free_object vm.heap a }, .status 0)
  | .getProp a si => vm.getProp pool fuel a si
  | .loadPropAdd a si => vm.loadPropAdd pool fuel a si
  | .setProp a si val at_ => vm.setProp pool fuel a si val at_
  | .getElem a key => vm.getElem fuel a key
  | .setElem a key val at_ => vm.engine (lr_set_property fuel vm.heap a key val at_)
  | .getIndex a idx => if idx < 2 ^ 31 then vm.getIndex fuel a idx else none
  | .setIndex a idx val at_ => if idx < 2 ^ 31 then vm.setIndex fuel a idx val at_ else none
  | .returned v => (vm.resume pool v).map fun vm => (vm, .value v)
  | .evalNode => some ({ vm with stack := .snapshot vm.caches :: vm.stack }, .status 0)
  | .evalDone =>
    match vm.stack with
    | .snapshot caches :: stack => some ({ vm with caches, stack }, .status 0)
    | _ => none

def next (vm : PropVM) (event : PropEvent) : Option PropVM :=
  (vm.step pool fuel event).map Prod.fst

end Instructions

theorem step_of_next {pool : Nat → Name} {fuel : Nat} {vm vm' : PropVM} {event : PropEvent}
    (taken : vm.next pool fuel event = some vm') :
    ∃ reply, vm.step pool fuel event = some (vm', reply) := by
  simpa [next] using taken

end PropVM

end LRJS
