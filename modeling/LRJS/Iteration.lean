import LRJS.Library.Cursors
import LRJS.SetAgreement

/-!
# Iteration over Maps and Sets

Iterators and `forEach` go through the slots of a table by their index.  A
history says of the calls so far which keys are in and since when; the order
of insertion is that of these times.
-/

namespace LRJS

open Cursors

namespace Maps

def LRMapData.entryAt (md : LRMapData) (i : Nat) : Option LRMapEntry :=
  if (md.entries i).alive then some (md.entries i) else none

def record (heap : Heap) : Call → History MapKey → History MapKey
  | .set key _ _, history => history.insert (mapKey heap key)
  | .delete key, history => history.remove (mapKey heap key)
  | .clear, history => history.clear
  | .get _, history | .has _, history => history

def maps (heap : Heap) (this : Addr) : Collection MapObject Call LRMapEntry MapKey where
  size := fun map => map.data.capacity
  entry := fun map => map.data.entryAt
  key := fun entry => mapKey heap entry.key
  call := fun map now => some (call heap this map now).2
  record := record heap

/-- `js_map_iterator_next`: the entry that it shows, by the kind of the iterator, and the
index behind it. -/
def js_map_iterator_next (heap : Heap) (this : Addr) :
    MapObject → Nat → Option LRMapEntry × Nat :=
  (maps heap this).next

/-- `js_map_forEach` with what the callback calls, for so many entries at most. -/
def js_map_forEach (heap : Heap) (this : Addr) (callback : List LRMapEntry → List Call) :
    Nat → Walk MapObject LRMapEntry MapKey → Option (Walk MapObject LRMapEntry MapKey) :=
  (maps heap this).loop callback

/-- The table in which `map_data_set` looks for a slot. -/
def roomFor (md : LRMapData) (allocated : Bool) : Option LRMapData :=
  if Crowded md then map_data_resize md allocated else some md

def LRMapData.cells (heap : Heap) (md : LRMapData) : Cells MapKey :=
  ⟨md.capacity, fun i => (md.entryAt i).map fun entry => mapKey heap entry.key⟩

def Appends (heap : Heap) (md : LRMapData) (key : LRValue) : Prop :=
  (∃ i < md.capacity, (md.entries i).Matches heap key) ∨
    ∀ slot < md.capacity,
      (md.positions (hash_value heap key)).find? (fun i => !(md.entries i).alive) = some slot →
        ∀ i < md.capacity, (md.entries i).alive = true → i < slot

instance (heap : Heap) (md : LRMapData) (key : LRValue) : Decidable (Appends heap md key) := by
  unfold Appends
  infer_instance

/-- While an iteration stands at an index, a new key gets a slot behind all entries, and a table
that grows keeps their order. -/
def KeepsOrder (heap : Heap) (map : MapObject) (index : Nat) : Call → Prop
  | .set key value allocated =>
    Meets heap map.data (.set key value allocated) ∧
      ∀ md ∈ roomFor map.data allocated,
        SameOrder index (map.data.cells heap) (md.cells heap) ∧ Appends heap md key
  | now => Meets heap map.data now

instance (heap : Heap) (map : MapObject) (index : Nat) :
    (now : Call) → Decidable (KeepsOrder heap map index now)
  | .set _ _ allocated =>
    inferInstanceAs (Decidable (_ ∧ ∀ grown ∈ roomFor map.data allocated, _ ∧ _))
  | .get key => inferInstanceAs (Decidable (Meets heap map.data (.get key)))
  | .has key => inferInstanceAs (Decidable (Meets heap map.data (.has key)))
  | .delete key => inferInstanceAs (Decidable (Meets heap map.data (.delete key)))
  | .clear => inferInstanceAs (Decidable (Meets heap map.data .clear))

end Maps

namespace Sets

open Maps (MapKey mapKey)

def LRSetData.entryAt (sd : LRSetData) (i : Nat) : Option LRSetEntry :=
  if (sd.entries i).alive then some (sd.entries i) else none

def record (heap : Maps.Heap) : Call → History MapKey → History MapKey
  | .add value _, history => history.insert (mapKey heap value)
  | .delete value, history => history.remove (mapKey heap value)
  | .clear, history => history.clear
  | .has _, history => history

def sets (heap : Maps.Heap) (this : Addr) : Collection SetObject Call LRSetEntry MapKey where
  size := fun set => set.data.capacity
  entry := fun set => set.data.entryAt
  key := fun entry => mapKey heap entry.value
  call := fun set now => (call heap this set now).map Prod.snd
  record := record heap

/-- `js_set_iterator_next`: the entry that it shows, by the kind of the iterator, and the
index behind it. -/
def js_set_iterator_next (heap : Maps.Heap) (this : Addr) :
    SetObject → Nat → Option LRSetEntry × Nat :=
  (sets heap this).next

/-- `js_set_forEach` with what the callback calls, for so many entries at most. -/
def js_set_forEach (heap : Maps.Heap) (this : Addr) (callback : List LRSetEntry → List Call) :
    Nat → Walk SetObject LRSetEntry MapKey → Option (Walk SetObject LRSetEntry MapKey) :=
  (sets heap this).loop callback

/-- The table in which `set_data_add` looks for a slot. -/
def roomFor (sd : LRSetData) (allocated : Bool) : Option LRSetData :=
  if Crowded sd ∧ CanGrow sd allocated then
    rehashAll sd (List.range sd.capacity) (doubled sd)
  else
    some sd

def LRSetData.cells (heap : Maps.Heap) (sd : LRSetData) : Cells MapKey :=
  ⟨sd.capacity, fun i => (sd.entryAt i).map fun entry => mapKey heap entry.value⟩

def Appends (heap : Maps.Heap) (sd : LRSetData) (value : LRValue) : Prop :=
  (∃ i < sd.capacity, (sd.entries i).alive = true ∧ (sd.entries i).Holds heap value) ∨
    ∀ slot < sd.capacity,
      (sd.positions (set_hash_value heap value)).find? (fun i => !(sd.entries i).alive) =
        some slot → ∀ i < sd.capacity, (sd.entries i).alive = true → i < slot

instance (heap : Maps.Heap) (sd : LRSetData) (value : LRValue) :
    Decidable (Appends heap sd value) := by
  unfold Appends
  infer_instance

/-- While an iteration stands at an index, a new value gets a slot behind all entries, and a table
that grows keeps their order. -/
def KeepsOrder (heap : Maps.Heap) (set : SetObject) (index : Nat) : Call → Prop
  | .add value allocated =>
    Meets heap set.data (.add value allocated) ∧
      ∀ sd ∈ roomFor set.data allocated,
        SameOrder index (set.data.cells heap) (sd.cells heap) ∧ Appends heap sd value
  | now => Meets heap set.data now

instance (heap : Maps.Heap) (set : SetObject) (index : Nat) :
    (now : Call) → Decidable (KeepsOrder heap set index now)
  | .add _ allocated =>
    inferInstanceAs (Decidable (_ ∧ ∀ grown ∈ roomFor set.data allocated, _ ∧ _))
  | .has value => inferInstanceAs (Decidable (Meets heap set.data (.has value)))
  | .delete value => inferInstanceAs (Decidable (Meets heap set.data (.delete value)))
  | .clear => inferInstanceAs (Decidable (Meets heap set.data .clear))

end Sets

end LRJS
