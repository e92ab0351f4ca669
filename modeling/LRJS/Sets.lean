import LRJS.Maps

/-!
# Sets

The hash table behind `Set` (`lr_set.c`).  Values are hashed and compared as
the keys of a Map.  A deleted entry leaves a slot that is not alive and says
nothing more: an insertion fills the first such slot on its way.
-/

namespace LRJS.Sets

/-- `set_same_value_zero`, the same code as for the keys of a Map. -/
def set_same_value_zero (heap : Maps.Heap) : LRValue → LRValue → Bool :=
  Maps.same_value_zero heap

/-- `set_hash_value`, the same code as for the keys of a Map. -/
def set_hash_value (heap : Maps.Heap) : LRValue → Nat :=
  Maps.hash_value heap

structure LRSetEntry where
  value : LRValue
  hash : Nat
  alive : Bool
deriving DecidableEq

namespace LRSetEntry

/-- An entry as `calloc` leaves it. -/
def zero : LRSetEntry :=
  ⟨.undefined, 0, false⟩

def deleted (entry : LRSetEntry) : LRSetEntry :=
  { entry with value := .undefined, alive := false }

def Holds (heap : Maps.Heap) (value : LRValue) (entry : LRSetEntry) : Prop :=
  entry.hash = set_hash_value heap value ∧ set_same_value_zero heap entry.value value = true

instance (heap : Maps.Heap) (value : LRValue) (entry : LRSetEntry) :
    Decidable (entry.Holds heap value) :=
  inferInstanceAs (Decidable (_ ∧ _))

end LRSetEntry

structure LRSetData where
  entries : Nat → LRSetEntry
  count : Nat
  capacity : Nat
  power : ∃ k, capacity = 2 ^ k

namespace LRSetData

/-- `sd->entries[idx] = entry`. -/
def store (sd : LRSetData) (idx : Nat) (entry : LRSetEntry) : LRSetData :=
  { sd with entries := Function.update sd.entries idx entry }

/-- The slots that a loop from `hash & (capacity - 1)` on visits in one round. -/
def positions (sd : LRSetData) (hash : Nat) : List Nat :=
  List.iterate (fun idx => (idx + 1) &&& (sd.capacity - 1)) (hash &&& (sd.capacity - 1))
    sd.capacity

end LRSetData

theorem power_at_first : ∃ k, 16 = 2 ^ k :=
  ⟨4, rfl⟩

def set_data_new : LRSetData where
  entries := fun _ => .zero
  count := 0
  capacity := 16
  power := power_at_first

/-- The table of twice the size that `set_data_resize` starts with. -/
def doubled (sd : LRSetData) : LRSetData where
  entries := fun _ => .zero
  count := 0
  capacity := sd.capacity * 2
  power := sd.power.elim fun k same => ⟨k + 1, by rw [same, pow_succ]⟩

def rehash (sd : LRSetData) (entry : LRSetEntry) : Option LRSetData :=
  ((sd.positions entry.hash).find? fun idx => !(sd.entries idx).alive).map fun idx =>
    { sd.store idx entry with count := sd.count + 1 }

/-- `set_data_resize` to twice the capacity, from the slots that are left. -/
def rehashAll (sd : LRSetData) : List Nat → LRSetData → Option LRSetData
  | [], grown => some grown
  | i :: rest, grown =>
    if (sd.entries i).alive then (rehash grown (sd.entries i)).bind (rehashAll sd rest)
    else rehashAll sd rest grown

/-- `(double)(count + 1) / (double)capacity > SET_LOAD_FACTOR`; the division is exact, as the
capacity is a power of two. -/
def Crowded (sd : LRSetData) : Prop :=
  3 * sd.capacity < 4 * (sd.count + 1)

instance (sd : LRSetData) : Decidable (Crowded sd) :=
  inferInstanceAs (Decidable (_ < _))

/-- The new table can be allocated, and its capacity fits an `int32_t`. -/
def CanGrow (sd : LRSetData) (allocated : Bool) : Prop :=
  allocated = true ∧ sd.capacity * 2 < 2 ^ 31

instance (sd : LRSetData) (allocated : Bool) : Decidable (CanGrow sd allocated) :=
  inferInstanceAs (Decidable (_ ∧ _))

/-- One round of the loop of `set_data_add`; a round without an answer is repeated for ever. -/
def addFrom (heap : Maps.Heap) (sd : LRSetData) (value : LRValue) : List Nat → Option LRSetData
  | [] => none
  | idx :: rest =>
    if (sd.entries idx).alive = false then
      some { sd.store idx ⟨value, set_hash_value heap value, true⟩ with count := sd.count + 1 }
    else if (sd.entries idx).Holds heap value then
      some sd
    else
      addFrom heap sd value rest

/-- `set_data_add`; nothing when it does not end. -/
def set_data_add (heap : Maps.Heap) (sd : LRSetData) (value : LRValue) (allocated : Bool) :
    Option LRSetData :=
  if Crowded sd then
    if CanGrow sd allocated then
      (rehashAll sd (List.range sd.capacity) (doubled sd)).bind fun sd =>
        addFrom heap sd value (sd.positions (set_hash_value heap value))
    else
      -- the answer is -1
      some sd
  else
    addFrom heap sd value (sd.positions (set_hash_value heap value))

/-- The search of `js_set_has` and `js_set_delete`. -/
def set_find (heap : Maps.Heap) (sd : LRSetData) (value : LRValue) : Option Nat :=
  (sd.positions (set_hash_value heap value)).find? fun idx =>
    (sd.entries idx).alive && decide ((sd.entries idx).Holds heap value)

/-- What `js_set_forEach` visits with a callback that leaves the Set alone. -/
def elements (sd : LRSetData) : List LRValue :=
  ((List.range sd.capacity).filter fun i => (sd.entries i).alive).map fun i =>
    (sd.entries i).value

/-- A Set: its table and its own property `size`. -/
structure SetObject where
  data : LRSetData
  size : Nat

/-- `js_set_constructor` without an argument. -/
def js_set_constructor : SetObject :=
  ⟨set_data_new, set_data_new.count⟩

/-- `set_sync_size` after a change of the table. -/
def set_sync_size (sd : LRSetData) : SetObject :=
  ⟨sd, sd.count⟩

section Methods

variable (heap : Maps.Heap) (this : Addr) (set : SetObject)

/-- `js_set_add`; the answer of `set_data_add` is not read. -/
def js_set_add (value : LRValue) (allocated : Bool) : Option (LRValue × SetObject) :=
  (set_data_add heap set.data value allocated).map fun sd => (.object this, set_sync_size sd)

def js_set_has (value : LRValue) : LRValue :=
  .bool (set_find heap set.data value).isSome

def js_set_delete (value : LRValue) : LRValue × SetObject :=
  match set_find heap set.data value with
  | some idx =>
    (.bool true, set_sync_size
      { set.data.store idx (set.data.entries idx).deleted with count := set.data.count - 1 })
  | none => (.bool false, set)

def js_set_clear : LRValue × SetObject :=
  (.undefined, set_sync_size
    { set.data with
      entries := fun i =>
        if (set.data.entries i).alive then (set.data.entries i).deleted else set.data.entries i
      count := 0 })

/-- A call of a method; `add` with the outcome of an allocation. -/
inductive Call where
  | add (value : LRValue) (allocated : Bool)
  | has (value : LRValue)
  | delete (value : LRValue)
  | clear

def call : Call → Option (LRValue × SetObject)
  | .add value allocated => js_set_add heap this set value allocated
  | .has value => some (js_set_has heap set value, set)
  | .delete value => some (js_set_delete heap set value)
  | .clear => some (js_set_clear set)

end Methods

structure Observation (Element : Type) where
  answer : LRValue
  size : Nat
  elements : Element

def observations (heap : Maps.Heap) (this : Addr) :
    SetObject → List Call → Option (List (Observation (List LRValue)))
  | _, [] => some []
  | set, now :: rest => do
      let (answer, set) ← call heap this set now
      let later ← observations heap this set rest
      return ⟨answer, set.size, elements set.data⟩ :: later

end LRJS.Sets
