import LRJS.Doubles
import LRJS.Library.LittleEndian

/-!
# Maps

The hash table behind `Map`: open addressing with tombstones, a capacity that
is a power of two, and the methods of `Map.prototype` that read and write it.
A slot that is not alive is fresh, unless its hash is the tombstone's.
-/

namespace LRJS.Maps

/-- What a table reads of the heap: the payload of each BigInt object, and the
pointer of each symbol. -/
structure Heap where
  bigints : Addr → Option Int
  symbols : Name → Nat

def same_value_zero (heap : Heap) : LRValue → LRValue → Bool
  | .undefined, .undefined => true
  | .null, .null => true
  | .bool x, .bool y => x = y
  | .int32 m, .int32 n => m = n
  | .float64 x, .float64 y => (x.isNaN && y.isNaN) || x.ceq y
  | .string s, .string t => s = t
  | .object a, .object b => a = b
  | .symbol s, .symbol t => heap.symbols s = heap.symbols t
  | _, _ => false

/-- `hash = hash * 33 + byte` in `uint32_t`. -/
def mix (hash byte : Nat) : Nat :=
  (hash * 33 + byte) % 2 ^ 32

def mixBytes (bytes : List UInt8) : Nat :=
  bytes.foldl (fun hash byte => mix hash byte.toNat) 5381

def hash_value (heap : Heap) (val : LRValue) : Nat :=
  let hash :=
    match val with
    | .undefined => mix 5381 0
    | .null => mix 5381 1
    | .bool b => mix 5381 (if b then 2 else 3)
    | .int32 n => mixBytes (LittleEndian.put 4 (n % 2 ^ 32).toNat)
    | .float64 d => mixBytes (LittleEndian.put 8 d.bits.toNat)
    | .string s => mixBytes (s.toList.flatMap String.utf8EncodeChar)
    | .object ptr => mixBytes (LittleEndian.put 8 ptr)
    | .symbol s => mixBytes (LittleEndian.put 8 (heap.symbols s))
    | .exception => 5381
  hash % 2 ^ 31

/-- `LRMapEntry`; the hash is the unsigned reading of its 32 bits. -/
structure LRMapEntry where
  key : LRValue
  value : LRValue
  hash : Nat
  alive : Bool
deriving DecidableEq

/-- `MAP_TOMBSTONE_HASH`. -/
def tombstoneHash : Nat :=
  0x80000000

namespace LRMapEntry

/-- An entry as `calloc` leaves it. -/
def zero : LRMapEntry :=
  ⟨.undefined, .undefined, 0, false⟩

def tombstone : LRMapEntry :=
  ⟨.undefined, .undefined, tombstoneHash, false⟩

/-- An entry that was not used since the last `calloc` or `clear`. -/
def Fresh (entry : LRMapEntry) : Prop :=
  entry.alive = false ∧ entry.hash ≠ tombstoneHash

instance (entry : LRMapEntry) : Decidable entry.Fresh :=
  inferInstanceAs (Decidable (_ ∧ _))

def Matches (heap : Heap) (key : LRValue) (entry : LRMapEntry) : Prop :=
  entry.alive = true ∧ entry.hash = hash_value heap key ∧
    same_value_zero heap entry.key key = true

instance (heap : Heap) (key : LRValue) (entry : LRMapEntry) :
    Decidable (entry.Matches heap key) :=
  inferInstanceAs (Decidable (_ ∧ _))

end LRMapEntry

structure LRMapData where
  entries : Nat → LRMapEntry
  count : Nat
  capacity : Nat
  power : ∃ k, capacity = 2 ^ k

namespace LRMapData

/-- `md->entries[idx] = entry`. -/
def store (md : LRMapData) (idx : Nat) (entry : LRMapEntry) : LRMapData :=
  { md with entries := Function.update md.entries idx entry }

/-- The slots that a loop from `hash & (capacity - 1)` on visits. -/
def positions (md : LRMapData) (hash : Nat) : List Nat :=
  List.iterate (fun idx => (idx + 1) &&& (md.capacity - 1)) (hash &&& (md.capacity - 1))
    md.capacity

end LRMapData

def map_data_new : LRMapData where
  entries := fun _ => .zero
  count := 0
  capacity := 16
  power := ⟨4, rfl⟩

/-- The table of twice the size that `map_data_resize` starts with. -/
def doubled (md : LRMapData) : LRMapData where
  entries := fun _ => .zero
  count := 0
  capacity := md.capacity * 2
  power := md.power.elim fun k same => ⟨k + 1, by rw [same, pow_succ]⟩

/-- Put an entry into the first slot that is not alive; the loop of the source
does not end when there is none. -/
def rehash (md : LRMapData) (entry : LRMapEntry) : LRMapData :=
  match (md.positions entry.hash).find? fun idx => !(md.entries idx).alive with
  | some idx => { md.store idx entry with count := md.count + 1 }
  | none => md

/-- `map_data_resize` to twice the capacity, which must fit an `int32_t`. -/
def map_data_resize (md : LRMapData) (allocated : Bool) : Option LRMapData :=
  if allocated ∧ md.capacity * 2 < 2 ^ 31 then
    some <| (List.range md.capacity).foldl (fun grown i =>
      if (md.entries i).alive then rehash grown (md.entries i) else grown) (doubled md)
  else
    none

/-- `(double)(count + 1) / (double)capacity > MAP_LOAD_FACTOR`; the division is
exact, as the capacity is a power of two. -/
def Crowded (md : LRMapData) : Prop :=
  3 * md.capacity < 4 * (md.count + 1)

instance (md : LRMapData) : Decidable (Crowded md) :=
  inferInstanceAs (Decidable (_ < _))

/-- The loop of `map_data_set`: the slot where a key is, or the first
tombstone or fresh slot. -/
def setFrom (heap : Heap) (md : LRMapData) (key value : LRValue) :
    List Nat → Option Nat → Option LRMapData
  | [], _ => none
  | idx :: rest, tombstone =>
    let entry := md.entries idx
    if entry.hash = tombstoneHash ∧ entry.alive = false then
      setFrom heap md key value rest (if tombstone = none then some idx else tombstone)
    else if entry.alive = false then
      some { md.store (tombstone.getD idx) ⟨key, value, hash_value heap key, true⟩ with
        count := md.count + 1 }
    else if entry.hash = hash_value heap key ∧ same_value_zero heap entry.key key then
      some (md.store idx { entry with value := value })
    else
      setFrom heap md key value rest tombstone

/-- `map_data_set`, with its answer 0 as `true` and -1 as `false`. -/
def map_data_set (heap : Heap) (md : LRMapData) (key value : LRValue) (allocated : Bool) :
    LRMapData × Bool :=
  match if Crowded md then map_data_resize md allocated else some md with
  | none => (md, false)
  | some md =>
    match setFrom heap md key value (md.positions (hash_value heap key)) none with
    | some md => (md, true)
    | none => (md, false)

/-- The search of `js_map_get`, `js_map_has` and `js_map_delete`. -/
def map_find (heap : Heap) (md : LRMapData) (key : LRValue) : Option Nat :=
  (md.positions (hash_value heap key)).find? fun idx => (md.entries idx).Matches heap key

/-- A Map: its table and its own property `size`. -/
structure MapObject where
  data : LRMapData
  size : Nat

/-- `js_map_constructor` without an argument. -/
def js_map_constructor : MapObject :=
  ⟨map_data_new, map_data_new.count⟩

/-- `map_sync_size` after a change of the table. -/
def map_sync_size (md : LRMapData) : MapObject :=
  ⟨md, md.count⟩

section Methods

variable (heap : Heap) (this : Addr) (map : MapObject)

/-- `js_map_set`; the answer of `map_data_set` is not read. -/
def js_map_set (key value : LRValue) (allocated : Bool) : LRValue × MapObject :=
  (.object this, map_sync_size (map_data_set heap map.data key value allocated).1)

def js_map_get (key : LRValue) : LRValue :=
  match map_find heap map.data key with
  | some idx => (map.data.entries idx).value
  | none => .undefined

def js_map_has (key : LRValue) : LRValue :=
  .bool (map_find heap map.data key).isSome

def js_map_delete (key : LRValue) : LRValue × MapObject :=
  match map_find heap map.data key with
  | some idx =>
    (.bool true,
      map_sync_size { map.data.store idx .tombstone with count := map.data.count - 1 })
  | none => (.bool false, map)

/-- `js_map_clear`; the hashes stay. -/
def js_map_clear : LRValue × MapObject :=
  (.undefined, map_sync_size
    { map.data with
      entries := fun i =>
        if (map.data.entries i).alive then
          { map.data.entries i with key := .undefined, value := .undefined, alive := false }
        else
          map.data.entries i
      count := 0 })

/-- A call of a method; `set` with the outcome of an allocation. -/
inductive Call where
  | set (key value : LRValue) (allocated : Bool)
  | get (key : LRValue)
  | has (key : LRValue)
  | delete (key : LRValue)
  | clear

def call : Call → LRValue × MapObject
  | .set key value allocated => js_map_set heap this map key value allocated
  | .get key => (js_map_get heap map key, map)
  | .has key => (js_map_has heap map key, map)
  | .delete key => js_map_delete heap map key
  | .clear => js_map_clear map

end Methods

def answers (heap : Heap) (this : Addr) : MapObject → List Call → List (LRValue × Nat)
  | _, [] => []
  | map, now :: rest =>
    let (answer, map) := call heap this map now
    (answer, map.size) :: answers heap this map rest

end LRJS.Maps
