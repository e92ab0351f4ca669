import LRJS.Syntax
import LRJS.Library.Probing

/-!
# Objects

The objects of `lr_engine.c`.  The value of a named property is kept in an `LRProperty` of the chain
`prop_hash`, newest first, and for the first 64 properties also in `props[slot]`, where the shape
records the slot.

The address of an atom identifies its string.  The bucket array over `prop_hash` is the search of
the chain.  Reference counts, allocation failure, `mut_gen` and `is_exotic` are left out.
-/

namespace LRJS

abbrev Addr := Nat

structure LRString where
  str : Name
  addr : Addr
deriving DecidableEq, Repr

inductive LRValue where
  | undefined
  | null
  | bool (b : Bool)
  | int32 (n : Int)
  | float64 (d : Double)
  | string (s : Name)
  | object (ptr : Addr)
  | symbol (description : Name)
  | exception
deriving DecidableEq, Repr

namespace LRValue

/-- `val.tag == LR_TYPE_OBJECT`. -/
def isObject : LRValue → Bool
  | .object _ => true
  | _ => false

end LRValue

/-- The bits of `LRPropFlags`. -/
structure LRPropFlags where
  getter : Bool
  setter : Bool
  configurable : Bool
  enumerable : Bool
  writable : Bool
deriving DecidableEq, Repr

namespace LRPropFlags

/-- `flags & (LR_PROP_GETTER | LR_PROP_SETTER)`. -/
def accessor (flags : LRPropFlags) : Bool :=
  flags.getter || flags.setter

def normal : LRPropFlags :=
  ⟨false, false, true, true, true⟩

end LRPropFlags

/-- A property; `id` stands for its address.  That a later property may get the address of a freed
one matters only where an entry of a dead object is found: see `Heap.EntriesLive`. -/
structure LRProperty where
  id : Nat
  key : LRString
  value : LRValue
  setter : LRValue
  flags : LRPropFlags
deriving DecidableEq, Repr

def SHAPE_FLAT_SIZE : Nat := 64

instance : NeZero SHAPE_FLAT_SIZE :=
  ⟨by decide⟩

def SHAPE_ATOM_HASH (atom : LRString) : Nat :=
  (atom.addr >>> 4) ^^^ (atom.addr >>> 10)

/-- `flat_keys`, `flat_slots` and `flat_count` of a shape. -/
abbrev FlatTable :=
  Probing.Table SHAPE_ATOM_HASH Nat SHAPE_FLAT_SIZE

/-- A hidden class.  Every shape has an entry for the property that it adds, so the walk over `prev`
is never taken. -/
structure LRShape where
  addr : Addr
  version : Nat
  flat : FlatTable

structure LRArrayData where
  length : Nat
  elements : Nat → LRValue

/-- `[[ProxyTarget]]` and `[[ProxyHandler]]`. -/
structure LRProxyData where
  target : LRValue
  handler : LRValue
deriving DecidableEq, Repr

/-- A view with the values that `typed_array_get_elem` decodes; `coerce` is what it reads back after
`typed_array_set_elem`. -/
structure TypedArrayData where
  length : Nat
  elements : Nat → LRValue
  coerce : LRValue → LRValue

/-- `typed_array_set_elem`. -/
def TypedArrayData.write (tad : TypedArrayData) (idx : Nat) (val : LRValue) : TypedArrayData :=
  { tad with elements := Function.update tad.elements idx (tad.coerce val) }

/-- The object types with their data.  Those without behaviour of their own in the property
operations are `other`. -/
inductive LRObjectType where
  | plain
  | array (data : Option LRArrayData)
  | function
  | cfunction
  | bytecodeFunc
  | proxy (data : Option LRProxyData)
  | typedArray (data : Option TypedArrayData)
  | other

namespace LRObjectType

/-- `type == LR_OBJ_PLAIN`. -/
def isPlain : LRObjectType → Bool
  | .plain => true
  | _ => false

/-- `type == LR_OBJ_PROXY`. -/
def isProxy : LRObjectType → Bool
  | .proxy _ => true
  | _ => false

end LRObjectType

structure LRObject where
  type : LRObjectType
  shape : Option LRShape
  props : List LRValue
  proto : LRValue
  prop_hash : List LRProperty

namespace LRObject

/-- `lr_object_alloc`, with the type and the prototype that its callers set. -/
def alloc (type : LRObjectType) (proto : LRValue) : LRObject :=
  ⟨type, none, [], proto, []⟩

/-- `lr_object_find_own_prop`. -/
def find_own_prop (o : LRObject) (key : LRString) : Option LRProperty :=
  o.prop_hash.find? fun prop => prop.key = key

def updateProp (o : LRObject) (key : LRString) (update : LRProperty → LRProperty) : LRObject :=
  { o with prop_hash := o.prop_hash.map fun prop => if prop.key = key then update prop else prop }

/-- `prop->value = val` for the property of a key. -/
def setValue (o : LRObject) (key : LRString) (val : LRValue) : LRObject :=
  o.updateProp key fun prop => { prop with value := val }

def unlink (o : LRObject) (key : LRString) : LRObject :=
  { o with prop_hash := o.prop_hash.filter fun prop => prop.key ≠ key }

def link (o : LRObject) (prop : LRProperty) : LRObject :=
  { o with prop_hash := prop :: o.prop_hash }

/-- `shape_get_slot_fast`, also `lr_shape_get_slot`. -/
def shape_get_slot (o : LRObject) (atom : LRString) : Option Nat :=
  o.shape.bind fun shape => shape.flat.find atom

/-- The slot of an atom that is inside `props`. -/
def slotInside (o : LRObject) (atom : LRString) : Option Nat :=
  (o.shape_get_slot atom).filter fun slot => slot < o.props.length

def small (o : LRObject) : Bool :=
  o.type.isPlain && o.shape.isSome && o.props ≠ [] && o.props.length < SHAPE_FLAT_SIZE

def fastSlot (o : LRObject) (atom : LRString) : Option Nat :=
  if o.small then o.slotInside atom else none

/-- `props[slot]`. -/
def slotValue (o : LRObject) (slot : Nat) : LRValue :=
  o.props.getD slot .undefined

/-- `props[slot] = val`. -/
def setSlot (o : LRObject) (slot : Nat) (val : LRValue) : LRObject :=
  { o with props := o.props.set slot val }

def mirror (o : LRObject) (atom : LRString) (val : LRValue) : LRObject :=
  match o.slotInside atom with
  | some slot => o.setSlot slot val
  | none => o

/-- `shape->version++`. -/
def bumpVersion (o : LRObject) : LRObject :=
  { o with shape := o.shape.map fun shape => { shape with version := shape.version + 1 } }

def flat (o : LRObject) : FlatTable :=
  match o.shape with
  | some shape => shape.flat
  | none => .empty _ _ _

/-- Record a new property in the shape, a fresh node at `at_`; in dictionary
mode only `props` grows. -/
def shape_add_prop (o : LRObject) (atom : LRString) (val : LRValue) (at_ : Addr) : LRObject :=
  let idx := o.props.length
  if idx + 1 ≤ SHAPE_FLAT_SIZE then
    { o with
      props := o.props ++ [val]
      shape := some ⟨at_, 0,
        if o.flat.count < SHAPE_FLAT_SIZE then o.flat.insert atom idx else o.flat⟩ }
  else
    { o with props := o.props ++ [.undefined] }

end LRObject

structure LRShapeCacheEntry where
  obj : Addr
  prop : LRString
  prop_ptr : Nat
deriving DecidableEq, Repr

def LR_SHAPE_CACHE_SIZE : Nat := 1024

/-- `atoms` is where the intern table keeps each string, `next_prop` the identity of the next
property. -/
structure Heap where
  objs : Addr → Option LRObject
  shape_cache : Nat → Option LRShapeCacheEntry
  atoms : Name → Addr
  next_prop : Nat

namespace Heap

/-- `lr_new_atom`. -/
def atom (h : Heap) (str : Name) : LRString :=
  ⟨str, h.atoms str⟩

def put (h : Heap) (a : Addr) (o : LRObject) : Heap :=
  { h with objs := Function.update h.objs a (some o) }

@[simp] theorem put_self (h : Heap) (a : Addr) (o : LRObject) : (h.put a o).objs a = some o :=
  Function.update_self ..

theorem put_of_ne (h : Heap) {a b : Addr} (o : LRObject) (different : b ≠ a) :
    (h.put a o).objs b = h.objs b :=
  Function.update_of_ne different ..

def shape_cache_index (obj : Addr) (atom : LRString) : Nat :=
  (obj ^^^ atom.addr) &&& (LR_SHAPE_CACHE_SIZE - 1)

def propAt (h : Heap) (obj : Addr) (prop_ptr : Nat) : Option LRProperty :=
  (h.objs obj).bind fun o => o.prop_hash.find? fun prop => prop.id = prop_ptr

def shape_cache_lookup (h : Heap) (obj : Addr) (atom : LRString) : Option LRValue := do
  let entry ← h.shape_cache (shape_cache_index obj atom)
  if entry.obj = obj ∧ entry.prop = atom then
    let prop ← h.propAt obj entry.prop_ptr
    if prop.key = atom ∧ prop.flags.accessor = false then
      some prop.value
    else
      none
  else
    none

def shape_cache_update (h : Heap) (obj : Addr) (atom : LRString) (prop : LRProperty) : Heap :=
  { h with shape_cache :=
      Function.update h.shape_cache (shape_cache_index obj atom) (some ⟨obj, atom, prop.id⟩) }

def shape_cache_drop (h : Heap) (obj : Addr) (atom : LRString) : Heap :=
  match h.shape_cache (shape_cache_index obj atom) with
  | some entry =>
    if entry.obj = obj ∧ entry.prop = atom then
      { h with shape_cache := Function.update h.shape_cache (shape_cache_index obj atom) none }
    else
      h
  | none => h

end Heap

end LRJS
