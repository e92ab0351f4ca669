import LRJS.Properties

/-!
# Property writes

The operations of `lr_engine.c` that change objects: assignment, accessors,
deletion, prototypes, creation and destruction.  `at_` is the address that
`calloc` returns for a new shape node.
-/

namespace LRJS

/-- The walk of the setters: the first property of the key on the prototype chain. -/
def protoFind (h : Heap) (atom : LRString) : Nat → LRValue → Option (Option LRProperty)
  | 0, .object _ => none
  | fuel + 1, .object p => do
      let po ← h.objs p
      match po.find_own_prop atom with
      | some found => some (some found)
      | none => protoFind h atom fuel po.proto
  | _, _ => some none

def newProperty (h : Heap) (a : Addr) (o : LRObject) (atom : LRString) (val : LRValue)
    (at_ : Addr) : Heap × LRProperty :=
  let prop : LRProperty := ⟨h.next_prop, atom, val, .undefined, .normal⟩
  ({ h with next_prop := h.next_prop + 1 }.put a
    ((o.link prop).shape_add_prop atom val at_), prop)

def lr_set_property_direct (fuel : Nat) (h : Heap) (obj : LRValue) (atom : LRString)
    (val : LRValue) (at_ : Addr) : Option (Heap × Reply) :=
  match obj with
  | .object a => do
      let o ← h.objs a
      match o.find_own_prop atom with
      | some prop =>
        match lr_property_try_set_accessor obj prop val with
        | some reply => some (h, reply)
        | none =>
          some (h.put a (o.setValue atom val), .status 0)
      | none =>
        match (← protoFind h atom fuel o.proto).bind fun pp =>
            lr_property_try_set_accessor obj pp val with
        | some reply => some (h, reply)
        | none => some ((newProperty h a o atom val at_).1, .status 0)
  | _ => some (h, .status (-1))

/-- The part of `lr_set_property` behind the type-specific paths. -/
def storeProperty (fuel : Nat) (h : Heap) (a : Addr) (o : LRObject) (atom : LRString)
    (val : LRValue) (at_ : Addr) : Option (Heap × Reply) :=
  match o.find_own_prop atom with
  | some found =>
    match lr_property_try_set_accessor (.object a) found val with
    | some reply => some (h.put a o, reply)
    | none =>
      some ((h.put a ((o.setValue atom val).mirror atom val)).shape_cache_update a atom found,
        .status 0)
  | none => do
      match (← protoFind h atom fuel o.proto).bind fun pp =>
          lr_property_try_set_accessor (.object a) pp val with
      | some reply => some (h.put a o, reply)
      | none =>
        let (made, prop) := newProperty h a o atom val at_
        some (made.shape_cache_update a atom prop, .status 0)

def LRArrayData.write (ad : LRArrayData) (idx : Nat) (val : LRValue) : LRArrayData :=
  { length := if ad.length ≤ idx then idx + 1 else ad.length
    elements := Function.update ad.elements idx val }

/-- The dense array part of `lr_set_property`: elements and `length`. -/
def denseSet (ad : LRArrayData) (atom : LRString) (val : LRValue) : LRArrayData :=
  match lr_is_numeric_index atom with
  | some idx => ad.write idx val
  | none =>
    if atom.str = "length" ∧ 0 ≤ lr_to_int32 val then
      { ad with length := (lr_to_int32 val).toNat }
    else
      ad

/-- `lr_set_property` on a proxy. -/
def proxySet (fuel : Nat) (h : Heap) (a : Addr) (data : Option LRProxyData)
    (atom : LRString) (val : LRValue) (at_ : Addr) : Option (Heap × Reply) :=
  match data with
  | none => some (h, .status (-1))
  | some pd =>
    trapOr fuel h pd.handler "set"
      (fun trap =>
        .call trap pd.handler [pd.target, lr_atom_to_value atom, val, .object a] .success)
      (lr_set_property_direct fuel h pd.target atom val at_)

/-- `lr_set_property` on an object. -/
def lr_set_property (fuel : Nat) (h : Heap) (a : Addr) (atom : LRString) (val : LRValue)
    (at_ : Addr) : Option (Heap × Reply) := do
  let o ← h.objs a
  match o.fastSlot atom with
  | some slot => some (h.put a (o.setSlot slot val), .status 0)
  | none =>
    match o.type with
    | .proxy data => proxySet fuel h a data atom val at_
    | .typedArray (some tad) =>
      match lr_is_numeric_index atom with
      | some idx =>
        if idx < tad.length then
          some (h.put a { o with type := .typedArray (some (tad.write idx val)) },
            .status 0)
        else
          some (h, .status 0)
      | none => storeProperty fuel h a o atom val at_
    | .array (some ad) =>
      storeProperty fuel h a { o with type := .array (some (denseSet ad atom val)) } atom
        val at_
    | _ => storeProperty fuel h a o atom val at_

/-- `lr_define_property_value`; the flags are ignored. -/
def lr_define_property_value (fuel : Nat) (h : Heap) (a : Addr) (atom : LRString)
    (val : LRValue) (at_ : Addr) : Option (Heap × Reply) :=
  lr_set_property fuel h a atom val at_

/-- `lr_set_property_uint32`, with the atom of the printed index. -/
def lr_set_property_uint32 (fuel : Nat) (h : Heap) (a : Addr) (idx : Nat) (val : LRValue)
    (at_ : Addr) : Option (Heap × Reply) := do
  let o ← h.objs a
  match o.type with
  | .array (some ad) =>
    some (h.put a { o with type := .array (some (ad.write idx val)) }, .status 0)
  | _ => lr_set_property fuel h a (h.atom (toString idx)) val at_

def LRProperty.mergeAccessor (prop : LRProperty) (getter setter : LRValue) : LRProperty :=
  { prop with
    value := if getter.isObject then getter else prop.value
    setter := if setter.isObject then setter else prop.setter
    flags := { prop.flags with
      getter := prop.flags.getter || getter.isObject
      setter := prop.flags.setter || setter.isObject } }

def accessorFlags (getter setter : LRValue) : LRPropFlags :=
  ⟨getter.isObject, setter.isObject, true, true, false⟩

namespace LRObject

def mergeAccessor (o : LRObject) (key : LRString) (getter setter : LRValue) : LRObject :=
  o.updateProp key fun prop => prop.mergeAccessor getter setter

def demote (o : LRObject) (key : LRString) (getter setter : LRValue) : LRObject :=
  o.updateProp key fun prop =>
    { prop with value := getter, setter := setter, flags := accessorFlags getter setter }

end LRObject

/-- `lr_set_accessor_property` on an object. -/
def lr_set_accessor_property (h : Heap) (a : Addr) (atom : LRString)
    (getter setter : LRValue) : Option (Heap × Reply) := do
  let o ← h.objs a
  match o.find_own_prop atom with
  | some prop =>
    if prop.flags.accessor then
      some ((h.put a (o.mergeAccessor atom getter setter)).shape_cache_update a atom prop,
        .status 0)
    else
      let demoted := ((o.demote atom getter setter).mirror atom .undefined).bumpVersion
      some ((h.put a demoted).shape_cache_update a atom prop, .status 0)
  | none =>
    let prop : LRProperty := ⟨h.next_prop, atom, getter, setter, accessorFlags getter setter⟩
    some (({ h with next_prop := h.next_prop + 1 }.put a (o.link prop)).shape_cache_update
      a atom prop, .status 0)

def lr_object_delete_own_prop (h : Heap) (a : Addr) (o : LRObject) (atom : LRString) :
    Heap × Reply :=
  match o.find_own_prop atom with
  | none => (h, .status (-1))
  | some _ =>
    ((h.shape_cache_drop a atom).put a
      (((o.unlink atom).mirror atom .undefined).bumpVersion), .status 0)

def lr_delete_property_direct (h : Heap) (obj : LRValue) (atom : LRString) :
    Option (Heap × Reply) :=
  match obj with
  | .object a => do
      let o ← h.objs a
      some (lr_object_delete_own_prop h a o atom)
  | _ => some (h, .status (-1))

/-- `lr_delete_property` on an object. -/
def lr_delete_property (fuel : Nat) (h : Heap) (a : Addr) (atom : LRString) :
    Option (Heap × Reply) := do
  let o ← h.objs a
  match o.type with
  | .proxy none => some (h, .status (-1))
  | .proxy (some pd) =>
    trapOr fuel h pd.handler "deleteProperty"
      (fun trap => .call trap pd.handler [pd.target, lr_atom_to_value atom] .success)
      (lr_delete_property_direct h pd.target atom)
  | _ => some (lr_object_delete_own_prop h a o atom)

/-- The walk of `lr_has_property_direct`. -/
def lr_has_property_direct (fuel : Nat) (h : Heap) (obj : LRValue) (atom : LRString) :
    Option Reply :=
  match obj with
  | .object a => do
      let o ← h.objs a
      match o.find_own_prop atom with
      | some _ => some (.truth true)
      | none => (protoFind h atom fuel o.proto).map fun found => .truth found.isSome
  | _ => some (.truth false)

/-- `lr_has_property` on a proxy. -/
def proxyHas (fuel : Nat) (h : Heap) (data : Option LRProxyData) (atom : LRString) :
    Option (Heap × Reply) :=
  match data with
  | none => some (h, .truth false)
  | some pd =>
    trapOr fuel h pd.handler "has"
      (fun trap => .call trap pd.handler [pd.target, lr_atom_to_value atom] .truth)
      ((lr_has_property_direct fuel h pd.target atom).map fun reply => (h, reply))

/-- The walk of `lr_has_property` over the prototypes. -/
def protoHas (h : Heap) (atom : LRString) : Nat → LRValue → Option (Heap × Reply)
  | 0, .object _ => none
  | fuel + 1, .object p => do
      let po ← h.objs p
      match po.type with
      | .proxy data => proxyHas fuel h data atom
      | _ =>
        match po.find_own_prop atom with
        | some _ => some (h, .truth true)
        | none => protoHas h atom fuel po.proto
  | _, _ => some (h, .truth false)

/-- `lr_has_property` on an object. -/
def lr_has_property (fuel : Nat) (h : Heap) (a : Addr) (atom : LRString) :
    Option (Heap × Reply) := do
  let o ← h.objs a
  match o.type with
  | .proxy data => proxyHas fuel h data atom
  | _ =>
    match o.find_own_prop atom with
    | some _ => some (h, .truth true)
    | none => protoHas h atom fuel o.proto

/-- `prop_is_array_index`: a canonical index up to 4294967294. -/
def prop_is_array_index (key : LRString) : Option Nat :=
  let chars := key.str.toList
  if chars.length = 0 ∨ (1 < chars.length ∧ chars.head? = some '0') then
    none
  else do
    let digits ← chars.mapM (digit? 10)
    digits.foldlM (fun v digit =>
      if v * 10 + digit > 4294967294 then none else some (v * 10 + digit)) 0

/-- `sort_property_enum_order`: array indices by insertion sort, then the other
keys in the order in which they were inserted. -/
def sort_property_enum_order (tab : List LRString) : List LRString :=
  if tab.length ≤ 1 then
    tab
  else
    let inserted := tab.reverse
    let indices := inserted.filterMap fun key => (prop_is_array_index key).map fun v => (v, key)
    let descending := indices.foldl
      (fun sorted entry => sorted.orderedInsert (fun new old => old.1 ≤ new.1) entry) []
    descending.reverse.map Prod.snd ++ inserted.filter fun key => (prop_is_array_index key).isNone

def LRObject.ownNames (o : LRObject) : List LRString :=
  sort_property_enum_order (o.prop_hash.map LRProperty.key)

def lr_get_own_property_names_direct (h : Heap) (obj : LRValue) : Option Reply :=
  match obj with
  | .object a => (h.objs a).map fun o => .names o.ownNames
  | _ => some (.names [])

/-- `lr_get_own_property_names` on an object. -/
def lr_get_own_property_names (fuel : Nat) (h : Heap) (a : Addr) : Option (Heap × Reply) := do
  let o ← h.objs a
  match o.type with
  | .proxy none => some (h, .names [])
  | .proxy (some pd) =>
    trapOr fuel h pd.handler "ownKeys"
      (fun trap => .call trap pd.handler [pd.target] .names)
      ((lr_get_own_property_names_direct h pd.target).map fun reply => (h, reply))
  | _ => some (h, .names o.ownNames)

/-- `lr_set_prototype` on an object. -/
def lr_set_prototype (h : Heap) (a : Addr) (proto : LRValue) : Option (Heap × Reply) := do
  let o ← h.objs a
  some (h.put a { o with proto := proto }, .status 0)

/-- `lr_free_object`: the object, its properties and its shapes are freed. -/
def lr_free_object (h : Heap) (a : Addr) : Heap :=
  { h with objs := Function.update h.objs a none }

@[simp] theorem free_self (h : Heap) (a : Addr) : (lr_free_object h a).objs a = none :=
  Function.update_self ..

theorem free_of_ne (h : Heap) {a b : Addr} (different : b ≠ a) :
    (lr_free_object h a).objs b = h.objs b :=
  Function.update_of_ne different ..

/-- `lr_new_object_proto` and its variants for the other types. -/
def lr_new_object (h : Heap) (a : Addr) (type : LRObjectType) (proto : LRValue) : Heap :=
  h.put a (.alloc type proto)

end LRJS
