import LRJS.Maps
import Mathlib.Data.Finmap

/-!
# Maps are finite maps

A Map is compared with a finite map whose keys are the values up to SameValueZero.  A table
represents it when its entries are those of the map, each under the hash of its key and without a
fresh slot on the way.  Every method keeps this, as long as the table recognises the keys that it is
asked for and finds room for those that it is given.
-/

namespace LRJS.Maps

open Function List Option Double

def canonical (d : Double) : Double :=
  if d.isNaN then .nan else if d.natAbs? = some 0 then .ofInt 0 else d

inductive MapKey where
  | undefined
  | null
  | bool (b : Bool)
  | number (d : Double)
  | string (s : Name)
  | bigint (n : Int)
  | object (ptr : Addr)
  | symbol (ptr : Nat)
  | exception
deriving DecidableEq

def mapKey (heap : Heap) : LRValue → MapKey
  | .undefined => .undefined
  | .null => .null
  | .bool b => .bool b
  | .int32 n => .number (canonical (.ofInt n))
  | .float64 d => .number (canonical d)
  | .string s => .string s
  | .object ptr =>
    match heap.bigints ptr with
    | some n => .bigint n
    | none => .object ptr
  | .symbol s => .symbol (heap.symbols s)
  | .exception => .exception

abbrev Contents :=
  Finmap fun _ : MapKey => LRValue

def Contents.call (heap : Heap) (this : Addr) (contents : Contents) :
    Call → LRValue × Contents
  | .set key value _ => (.object this, contents.insert (mapKey heap key) value)
  | .get key => ((contents.lookup (mapKey heap key)).getD .undefined, contents)
  | .has key => (.bool (contents.lookup (mapKey heap key)).isSome, contents)
  | .delete key =>
    (.bool (contents.lookup (mapKey heap key)).isSome, contents.erase (mapKey heap key))
  | .clear => (.undefined, ∅)

def Contents.answers (heap : Heap) (this : Addr) :
    Contents → List Call → List (LRValue × Nat)
  | _, [] => []
  | contents, now :: rest =>
    let (answer, contents) := contents.call heap this now
    (answer, contents.keys.card) :: Contents.answers heap this contents rest

/-! ## Keys -/

theorem isNaN_canonical (d : Double) : (canonical d).isNaN = d.isNaN := by
  unfold canonical
  split
  · next isNaN =>
      rw [isNaN]
      decide
  · next number =>
      split
      · rw [isNaN_ofInt, Bool.eq_false_iff.mpr number]
      · rfl

/-- Two numbers are one key exactly if they are equal or both NaN. -/
theorem canonical_eq_iff (x y : Double) :
    canonical x = canonical y ↔ ((x.isNaN && y.isNaN) || x.ceq y) = true := by
  have exact_ : Double.Exact 0 := Nat.zero_le _
  by_cases nanX : x.isNaN = true
  · by_cases nanY : y.isNaN = true
    · simp [canonical, nanX, nanY]
    · have different : canonical x ≠ canonical y := by
        intro same
        rw [← isNaN_canonical, same, isNaN_canonical] at nanX
        exact nanY nanX
      simp [different, nanX, nanY, ceq]
  · by_cases nanY : y.isNaN = true
    · have different : canonical x ≠ canonical y := by
        intro same
        rw [← isNaN_canonical, ← same, isNaN_canonical] at nanY
        exact nanX nanY
      simp [different, nanX, nanY, ceq]
    · have zero := natAbs?_ofInt exact_
      by_cases zeroX : x.natAbs? = some 0 <;> by_cases zeroY : y.natAbs? = some 0
      · simp [canonical, ceq, nanX, nanY, zeroX, zeroY]
      · have different : x ≠ y := by
          rintro rfl
          exact zeroY zeroX
        have other : ofInt 0 ≠ y := by
          rintro rfl
          exact zeroY zero
        simp [canonical, ceq, nanX, nanY, zeroX, zeroY, different, other]
      · have different : x ≠ y := by
          rintro rfl
          exact zeroX zeroY
        have other : x ≠ ofInt 0 := by
          rintro rfl
          exact zeroX zero
        simp [canonical, ceq, nanX, nanY, zeroX, zeroY, different, other]
      · simp [canonical, ceq, nanX, nanY, zeroX, zeroY]

theorem mapKey_eq {heap : Heap} {a b : LRValue} (same : same_value_zero heap a b = true) :
    mapKey heap a = mapKey heap b := by
  unfold same_value_zero at same
  split at same
  case h_5 x y =>
    rw [mapKey, mapKey, (canonical_eq_iff x y).mpr same]
  all_goals
    simp_all [mapKey]

/-! ## Slots -/

theorem capacity_pos (md : LRMapData) : 0 < md.capacity := by
  obtain ⟨k, same⟩ := md.power
  rw [same]
  exact Nat.two_pow_pos k

theorem and_capacity (md : LRMapData) (n : Nat) : n &&& (md.capacity - 1) = n % md.capacity := by
  obtain ⟨k, same⟩ := md.power
  rw [same]
  exact Nat.and_two_pow_sub_one_eq_mod n k

section

variable (md : LRMapData) (hash : Nat)
include md hash

theorem positions_eq :
    md.positions hash = (List.range md.capacity).map fun i => (hash + i) % md.capacity := by
  rw [LRMapData.positions, and_capacity]
  apply Probing.iterate_eq_map _ (capacity_pos md)
  intro idx _
  exact and_capacity md (idx + 1)

theorem positions_eq_probe [NeZero md.capacity] :
    md.positions hash = (Probing.probe md.capacity hash).map Fin.val := by
  rw [positions_eq, Probing.probe, List.map_map]
  rfl

theorem positions_nodup : (md.positions hash).Nodup := by
  have : NeZero md.capacity := ⟨(capacity_pos md).ne'⟩
  rw [positions_eq_probe]
  exact (Probing.probe_nodup hash).map Fin.val_injective

theorem mem_positions (idx : Nat) : idx ∈ md.positions hash ↔ idx < md.capacity := by
  have : NeZero md.capacity := ⟨(capacity_pos md).ne'⟩
  rw [positions_eq_probe, List.mem_map]
  constructor
  · rintro ⟨slot, -, rfl⟩
    exact slot.isLt
  · intro bound
    exact ⟨⟨idx, bound⟩, Probing.mem_probe hash _, rfl⟩

end

theorem positions_congr {md md' : LRMapData} (same : md'.capacity = md.capacity) (hash : Nat) :
    md'.positions hash = md.positions hash := by
  rw [positions_eq, positions_eq, same]

/-! ## The loop of `map_data_set` -/

section Loop

variable {heap : Heap} {md : LRMapData} {key value : LRValue}

variable {idx : Nat}

theorem setFrom_marked (marked : (md.entries idx).hash = tombstoneHash)
    (dead : (md.entries idx).alive = false) (rest : List Nat) (tombstone : Option Nat) :
    setFrom heap md key value (idx :: rest) tombstone =
      setFrom heap md key value rest (if tombstone = none then some idx else tombstone) := by
  rw [setFrom, if_pos ⟨marked, dead⟩]

theorem setFrom_fresh (fresh : (md.entries idx).Fresh) (rest : List Nat) (tombstone : Option Nat) :
    setFrom heap md key value (idx :: rest) tombstone =
      some { md.store (tombstone.getD idx) ⟨key, value, hash_value heap key, true⟩ with
        count := md.count + 1 } := by
  rw [setFrom, if_neg (fun marked => fresh.2 marked.1), if_pos fresh.1]

theorem setFrom_other (alive : (md.entries idx).alive = true)
    (other : ¬(md.entries idx).Matches heap key) (rest : List Nat) (tombstone : Option Nat) :
    setFrom heap md key value (idx :: rest) tombstone =
      setFrom heap md key value rest tombstone := by
  have differs : ¬((md.entries idx).hash = hash_value heap key ∧
      same_value_zero heap (md.entries idx).key key = true) :=
    fun same => other ⟨alive, same⟩
  rw [setFrom, if_neg (by simp [alive]), if_neg (by simp [alive]), if_neg differs]

theorem setFrom_passed (used : ¬(md.entries idx).Fresh)
    (other : ¬(md.entries idx).Matches heap key) (rest : List Nat) (tombstone : Option Nat) :
    ∃ tombstone', setFrom heap md key value (idx :: rest) tombstone =
      setFrom heap md key value rest tombstone' := by
  cases alive : (md.entries idx).alive with
  | true => exact ⟨tombstone, setFrom_other alive other rest tombstone⟩
  | false =>
    have marked : (md.entries idx).hash = tombstoneHash := by
      by_contra unmarked
      exact used ⟨alive, unmarked⟩
    exact ⟨_, setFrom_marked marked alive rest tombstone⟩

theorem setFrom_found {before after : List Nat} (found : (md.entries idx).Matches heap key)
    (passed : ∀ i ∈ before, ¬(md.entries i).Fresh ∧ ¬(md.entries i).Matches heap key)
    (tombstone : Option Nat) :
    setFrom heap md key value (before ++ idx :: after) tombstone =
      some (md.store idx { md.entries idx with value := value }) := by
  induction before generalizing tombstone with
  | nil =>
    obtain ⟨alive, hash, same⟩ := found
    rw [nil_append, setFrom, if_neg (by simp [alive]), if_neg (by simp [alive]),
      if_pos ⟨hash, same⟩]
  | cons head rest ih =>
    obtain ⟨used, other⟩ := passed head mem_cons_self
    obtain ⟨tombstone', later⟩ := setFrom_passed used other (rest ++ idx :: after) tombstone
    rw [cons_append, later]
    apply ih
    intro i member
    exact passed i (mem_cons_of_mem head member)

theorem setFrom_some {slots : List Nat} (absent : ∀ i ∈ slots, ¬(md.entries i).Matches heap key)
    (fresh : ∃ i ∈ slots, (md.entries i).Fresh) (tombstone : Nat) :
    setFrom heap md key value slots (some tombstone) =
      some { md.store tombstone ⟨key, value, hash_value heap key, true⟩ with
        count := md.count + 1 } := by
  induction slots with
  | nil => simp at fresh
  | cons head rest ih =>
    by_cases here : (md.entries head).Fresh
    · exact setFrom_fresh here rest (some tombstone)
    · have ahead : ∃ i ∈ rest, (md.entries i).Fresh := by
        simpa [here] using fresh
      have later := ih
        (fun i member => absent i (mem_cons_of_mem head member)) ahead
      cases alive : (md.entries head).alive with
      | true => rw [setFrom_other alive (absent head mem_cons_self), later]
      | false =>
        have marked : (md.entries head).hash = tombstoneHash := by
          by_contra unmarked
          exact here ⟨alive, unmarked⟩
        rw [setFrom_marked marked alive, if_neg (by simp), later]

/-- An absent key is put into the first dead entry. -/
theorem setFrom_absent {before after : List Nat}
    (absent : ∀ i ∈ before ++ idx :: after, ¬(md.entries i).Matches heap key)
    (fresh : ∃ i ∈ before ++ idx :: after, (md.entries i).Fresh)
    (dead : (md.entries idx).alive = false) (passed : ∀ i ∈ before, (md.entries i).alive = true) :
    setFrom heap md key value (before ++ idx :: after) none =
      some { md.store idx ⟨key, value, hash_value heap key, true⟩ with
        count := md.count + 1 } := by
  induction before with
  | nil =>
    by_cases here : (md.entries idx).Fresh
    · exact setFrom_fresh here after none
    · have marked : (md.entries idx).hash = tombstoneHash := by
        by_contra unmarked
        exact here ⟨dead, unmarked⟩
      rw [nil_append, setFrom_marked marked dead, if_pos rfl]
      apply setFrom_some
      · intro i member
        exact absent i (mem_cons_of_mem idx member)
      · simpa [here] using fresh
  | cons head rest ih =>
    have alive := passed head mem_cons_self
    rw [cons_append, setFrom_other alive (absent head mem_cons_self)]
    apply ih
    · intro i member
      exact absent i (mem_cons_of_mem head member)
    · have here : ¬(md.entries head).Fresh := by
        simp [LRMapEntry.Fresh, alive]
      rw [cons_append] at fresh
      simpa only [exists_mem_cons_iff, here, false_or] using fresh
    · intro i member
      exact passed i (mem_cons_of_mem head member)

end Loop

/-! ## Conditions -/

/-- Every entry whose key is SameValueZero to `key` is found under it. -/
def Recognises (heap : Heap) (md : LRMapData) (key : LRValue) : Prop :=
  ∀ i < md.capacity, (md.entries i).alive = true →
    mapKey heap (md.entries i).key = mapKey heap key → (md.entries i).Matches heap key

instance (heap : Heap) (md : LRMapData) (key : LRValue) : Decidable (Recognises heap md key) :=
  inferInstanceAs (Decidable (∀ i < md.capacity, _ → _ → _))

def HasRoom (heap : Heap) (md : LRMapData) (key : LRValue) (allocated : Bool) : Prop :=
  if Crowded md then
    allocated = true ∧ md.capacity * 2 < 2 ^ 31
  else
    (∃ i < md.capacity, (md.entries i).Matches heap key) ∨
      ∃ i < md.capacity, (md.entries i).Fresh

instance (heap : Heap) (md : LRMapData) (key : LRValue) (allocated : Bool) :
    Decidable (HasRoom heap md key allocated) := by
  unfold HasRoom
  infer_instance

def Meets (heap : Heap) (md : LRMapData) : Call → Prop
  | .set key _ allocated => Recognises heap md key ∧ HasRoom heap md key allocated
  | .get key | .has key | .delete key => Recognises heap md key
  | .clear => True

instance (heap : Heap) (md : LRMapData) (now : Call) : Decidable (Meets heap md now) := by
  cases now <;> unfold Meets <;> infer_instance

def AllMeet (heap : Heap) (this : Addr) : MapObject → List Call → Prop
  | _, [] => True
  | map, now :: rest =>
    Meets heap map.data now ∧ AllMeet heap this (call heap this map now).2 rest

instance decidableAllMeet (heap : Heap) (this : Addr) :
    ∀ (map : MapObject) (calls : List Call), Decidable (AllMeet heap this map calls)
  | _, [] => inferInstanceAs (Decidable True)
  | map, now :: rest =>
    have := decidableAllMeet heap this (call heap this map now).2 rest
    inferInstanceAs (Decidable (_ ∧ _))

/-! ## Tables and finite maps -/

def LRMapData.taken (md : LRMapData) : Finset Nat :=
  (Finset.range md.capacity).filter fun i => (md.entries i).alive = true

theorem mem_taken {md : LRMapData} {i : Nat} :
    i ∈ md.taken ↔ i < md.capacity ∧ (md.entries i).alive = true := by
  simp [LRMapData.taken]

structure Changed (md md' : LRMapData) (idx : Nat) (entry : LRMapEntry) : Prop where
  capacity : md'.capacity = md.capacity
  here : md'.entries idx = entry
  there : ∀ i, i ≠ idx → md'.entries i = md.entries i

theorem changed_store (md : LRMapData) (idx : Nat) (entry : LRMapEntry) :
    Changed md (md.store idx entry) idx entry :=
  ⟨rfl, update_self .., fun _ different => update_of_ne different ..⟩

structure Represents (heap : Heap) (md : LRMapData) (contents : Contents) : Prop where
  hashed : ∀ i ∈ md.taken, (md.entries i).hash = hash_value heap (md.entries i).key
  unique : ∀ i ∈ md.taken, ∀ j ∈ md.taken,
    mapKey heap (md.entries i).key = mapKey heap (md.entries j).key → i = j
  reachable : ∀ i ∈ md.taken, ∀ before after,
    md.positions (md.entries i).hash = before ++ i :: after →
      ∀ j ∈ before, ¬(md.entries j).Fresh
  counted : md.count = md.taken.card
  lookup : ∀ key value, contents.lookup key = some value ↔
    ∃ i ∈ md.taken, mapKey heap (md.entries i).key = key ∧ (md.entries i).value = value

theorem mem_of_map_find {heap : Heap} {md : LRMapData} {key : LRValue} {idx : Nat}
    (found : map_find heap md key = some idx) :
    idx ∈ md.taken ∧ (md.entries idx).Matches heap key := by
  have matching : (md.entries idx).Matches heap key := by
    simpa using find?_some found
  have bound := (mem_positions md _ idx).mp (mem_of_find?_eq_some found)
  exact ⟨mem_taken.mpr ⟨bound, matching.1⟩, matching⟩

namespace Represents

variable {heap : Heap} {md : LRMapData} {contents : Contents}

theorem size (represents : Represents heap md contents) : contents.keys.card = md.count := by
  have keys : contents.keys = md.taken.image fun i => mapKey heap (md.entries i).key := by
    ext key
    rw [Finmap.mem_keys, Finmap.mem_iff, Finset.mem_image]
    constructor
    · rintro ⟨value, found⟩
      obtain ⟨i, taken, same, -⟩ := (represents.lookup key value).mp found
      exact ⟨i, taken, same⟩
    · rintro ⟨i, taken, same⟩
      exact ⟨_, (represents.lookup key _).mpr ⟨i, taken, same, rfl⟩⟩
  rw [keys, represents.counted]
  apply Finset.card_image_of_injOn
  intro i taken j taken'
  exact represents.unique i taken j taken'

theorem find (represents : Represents heap md contents) {key : LRValue}
    (recognised : Recognises heap md key) :
    contents.lookup (mapKey heap key) =
      (map_find heap md key).map fun idx => (md.entries idx).value := by
  cases found : map_find heap md key with
  | some idx =>
    obtain ⟨taken, matching⟩ := mem_of_map_find found
    exact (represents.lookup _ _).mpr ⟨idx, taken, mapKey_eq matching.2.2, rfl⟩
  | none =>
    rw [map_none, eq_none_iff_forall_not_mem]
    intro value holds
    obtain ⟨i, taken, same, -⟩ := (represents.lookup _ value).mp holds
    obtain ⟨bound, alive⟩ := mem_taken.mp taken
    have missed := find?_eq_none.mp found i ((mem_positions md _ i).mpr bound)
    exact missed (by simpa using recognised i bound alive same)

theorem of_dead (dead : ∀ i, (md.entries i).alive = false) (count : md.count = 0) :
    Represents heap md ∅ := by
  have nothing : md.taken = ∅ := by
    simp [LRMapData.taken, dead]
  constructor <;> simp [nothing, count]

section Change

variable {md' : LRMapData} {idx : Nat} {entry : LRMapEntry}

section

variable (represents : Represents heap md contents)
include represents

/-- Filling a dead entry of the probe sequence adds the key. -/
theorem fill {key value : LRValue}
    (changed : Changed md md' idx ⟨key, value, hash_value heap key, true⟩)
    (count : md'.count = md.count + 1) (bound : idx < md.capacity)
    (dead : (md.entries idx).alive = false) (absent : contents.lookup (mapKey heap key) = none)
    (reached : ∀ before after, md.positions (hash_value heap key) = before ++ idx :: after →
      ∀ j ∈ before, ¬(md.entries j).Fresh) :
    Represents heap md' (contents.insert (mapKey heap key) value) := by
  have free : idx ∉ md.taken := by
    intro taken
    rw [(mem_taken.mp taken).2] at dead
    cases dead
  have other {i : Nat} (taken : i ∈ md.taken) : md'.entries i = md.entries i :=
    changed.there i fun same => free (same ▸ taken)
  have new {i : Nat} (taken : i ∈ md.taken) :
      mapKey heap (md.entries i).key ≠ mapKey heap key := by
    intro same
    have found := (represents.lookup _ _).mpr ⟨i, taken, same, rfl⟩
    rw [absent] at found
    cases found
  have slots : md'.taken = insert idx md.taken := by
    ext i
    rw [mem_taken, Finset.mem_insert, mem_taken, changed.capacity]
    by_cases same : i = idx
    · simp [same, bound, changed.here]
    · simp [same, changed.there i same]
  constructor
  · intro i taken
    rcases Finset.mem_insert.mp (slots ▸ taken) with rfl | old
    · rw [changed.here]
    · rw [other old]
      exact represents.hashed i old
  · intro i taken j taken' same
    rcases Finset.mem_insert.mp (slots ▸ taken) with rfl | old <;>
      rcases Finset.mem_insert.mp (slots ▸ taken') with rfl | old'
    · rfl
    · rw [changed.here, other old'] at same
      exact absurd same.symm (new old')
    · rw [changed.here, other old] at same
      exact absurd same (new old)
    · rw [other old, other old'] at same
      exact represents.unique i old j old' same
  · intro i taken before after split j member
    by_cases same : j = idx
    · simp [same, changed.here, LRMapEntry.Fresh]
    · rw [changed.there j same]
      rw [positions_congr changed.capacity] at split
      rcases Finset.mem_insert.mp (slots ▸ taken) with rfl | old
      · rw [changed.here] at split
        exact reached before after split j member
      · rw [other old] at split
        exact represents.reachable i old before after split j member
  · rw [slots, Finset.card_insert_of_notMem free, ← represents.counted, count]
  · intro key' value'
    rw [slots, Finset.exists_mem_insert, changed.here]
    have rest : (∃ i ∈ md.taken, mapKey heap (md'.entries i).key = key' ∧
        (md'.entries i).value = value') ↔ contents.lookup key' = some value' := by
      rw [represents.lookup]
      apply exists_congr
      intro i
      apply and_congr_right
      intro taken
      rw [other taken]
    rw [rest]
    by_cases same : key' = mapKey heap key
    · rw [same, Finmap.lookup_insert, absent]
      simp
    · simp [Finmap.lookup_insert_of_ne _ same, Ne.symm same]

/-- A new value in a taken entry replaces the key's value. -/
theorem replace {value : LRValue}
    (changed : Changed md md' idx { md.entries idx with value := value })
    (count : md'.count = md.count) (taken : idx ∈ md.taken) :
    Represents heap md' (contents.insert (mapKey heap (md.entries idx).key) value) := by
  have keys (i : Nat) : (md'.entries i).key = (md.entries i).key ∧
      (md'.entries i).hash = (md.entries i).hash ∧
        (md'.entries i).alive = (md.entries i).alive := by
    by_cases same : i = idx
    · simp [same, changed.here]
    · simp [changed.there i same]
  have slots : md'.taken = md.taken := by
    ext i
    rw [mem_taken, mem_taken, changed.capacity, (keys i).2.2]
  constructor
  · intro i member
    rw [(keys i).1, (keys i).2.1]
    exact represents.hashed i (slots ▸ member)
  · intro i member j member' same
    rw [(keys i).1, (keys j).1] at same
    exact represents.unique i (slots ▸ member) j (slots ▸ member') same
  · intro i member before after split j passed
    rw [positions_congr changed.capacity, (keys i).2.1] at split
    have used := represents.reachable i (slots ▸ member) before after split j passed
    rwa [LRMapEntry.Fresh, (keys j).2.1, (keys j).2.2]
  · rw [slots, count, represents.counted]
  · intro key' value'
    rw [slots]
    by_cases same : key' = mapKey heap (md.entries idx).key
    · rw [same, Finmap.lookup_insert, some.injEq]
      constructor
      · rintro rfl
        exact ⟨idx, taken, by rw [changed.here], by rw [changed.here]⟩
      · rintro ⟨i, member, found, holds⟩
        rw [(keys i).1] at found
        rw [represents.unique i member idx taken found, changed.here] at holds
        exact holds
    · rw [Finmap.lookup_insert_of_ne _ same, represents.lookup]
      apply exists_congr
      intro i
      apply and_congr_right
      intro member
      by_cases here : i = idx
      · simp [here, changed.here, Ne.symm same]
      · rw [changed.there i here]

/-- A tombstone in a taken entry removes its key. -/
theorem remove (changed : Changed md md' idx .tombstone) (count : md'.count = md.count - 1)
    (taken : idx ∈ md.taken) :
    Represents heap md' (contents.erase (mapKey heap (md.entries idx).key)) := by
  have slots : md'.taken = md.taken.erase idx := by
    ext i
    rw [mem_taken, Finset.mem_erase, mem_taken, changed.capacity]
    by_cases same : i = idx
    · simp [same, changed.here, LRMapEntry.tombstone]
    · simp [same, changed.there i same]
  have kept {i : Nat} (member : i ∈ md'.taken) :
      i ∈ md.taken ∧ md'.entries i = md.entries i := by
    obtain ⟨other, old⟩ := Finset.mem_erase.mp (slots ▸ member)
    exact ⟨old, changed.there i other⟩
  constructor
  · intro i member
    obtain ⟨old, same⟩ := kept member
    rw [same]
    exact represents.hashed i old
  · intro i member j member' same
    obtain ⟨old, sameI⟩ := kept member
    obtain ⟨old', sameJ⟩ := kept member'
    rw [sameI, sameJ] at same
    exact represents.unique i old j old' same
  · intro i member before after split j passed
    obtain ⟨old, same⟩ := kept member
    rw [positions_congr changed.capacity, same] at split
    by_cases here : j = idx
    · simp [here, changed.here, LRMapEntry.Fresh, LRMapEntry.tombstone]
    · rw [changed.there j here]
      exact represents.reachable i old before after split j passed
  · rw [slots, Finset.card_erase_of_mem taken, count, represents.counted]
  · intro key value
    by_cases same : key = mapKey heap (md.entries idx).key
    · rw [same, Finmap.lookup_erase]
      constructor
      · intro found
        cases found
      · rintro ⟨i, member, found, -⟩
        obtain ⟨old, sameI⟩ := kept member
        rw [sameI] at found
        have here := represents.unique i old idx taken found
        rw [slots, here] at member
        exact absurd rfl (Finset.mem_erase.mp member).1
    · rw [Finmap.lookup_erase_ne same, represents.lookup]
      constructor
      · rintro ⟨i, old, found, holds⟩
        have other : i ≠ idx := by
          rintro rfl
          exact same found.symm
        rw [slots]
        exact ⟨i, Finset.mem_erase.mpr ⟨other, old⟩, by rwa [changed.there i other],
          by rwa [changed.there i other]⟩
      · rintro ⟨i, member, found, holds⟩
        obtain ⟨old, sameI⟩ := kept member
        rw [sameI] at found holds
        exact ⟨i, old, found, holds⟩

end

end Change

end Represents

/-! ## Setting -/

section Setting

variable {heap : Heap} {md : LRMapData} {contents : Contents}

theorem exists_dead (few : md.taken.card < md.capacity) :
    ∃ i < md.capacity, (md.entries i).alive = false := by
  by_contra full
  have all : md.taken = Finset.range md.capacity := by
    ext i
    rw [mem_taken, Finset.mem_range, and_iff_left_iff_imp]
    intro bound
    by_contra dead
    exact full ⟨i, bound, by simpa using dead⟩
  rw [all, Finset.card_range] at few
  exact absurd few (Nat.lt_irrefl _)

theorem exists_first_dead (dead : ∃ i < md.capacity, (md.entries i).alive = false) (hash : Nat) :
    ∃ idx before after,
      (md.positions hash).find? (fun i => !(md.entries i).alive) = some idx ∧
      md.positions hash = before ++ idx :: after ∧ idx < md.capacity ∧
      (md.entries idx).alive = false ∧ ∀ i ∈ before, (md.entries i).alive = true := by
  obtain ⟨i, bound, isDead⟩ := dead
  have some_ : ((md.positions hash).find? fun i => !(md.entries i).alive).isSome := by
    rw [find?_isSome]
    exact ⟨i, (mem_positions md hash i).mpr bound, by simp [isDead]⟩
  obtain ⟨idx, found⟩ := isSome_iff_exists.mp some_
  obtain ⟨here, before, after, split, passed⟩ := find?_eq_some_iff_append.mp found
  have member : idx ∈ md.positions hash := by
    rw [split]
    exact mem_append_right before mem_cons_self
  exact ⟨idx, before, after, found, split, (mem_positions md hash idx).mp member,
    by simpa using here, by simpa using passed⟩

theorem split_unique {hash idx : Nat} {before after before' after' : List Nat}
    (split : md.positions hash = before ++ idx :: after)
    (split' : md.positions hash = before' ++ idx :: after') : before' = before :=
  Probing.split_unique (positions_nodup md hash) split' split

/-- The loop of `map_data_set` puts a value into the entry of the key, or into the first slot that
is not alive. -/
theorem set_loop_store {key : LRValue} (represents : Represents heap md contents)
    (room : (∃ i < md.capacity, (md.entries i).Matches heap key) ∨
      ∃ i < md.capacity, (md.entries i).Fresh) (value : LRValue) :
    (∃ idx ∈ md.taken, (md.entries idx).Matches heap key ∧
        setFrom heap md key value (md.positions (hash_value heap key)) none =
          some (md.store idx { md.entries idx with value := value })) ∨
      (map_find heap md key = none ∧ (∀ i < md.capacity, ¬(md.entries i).Matches heap key) ∧
        ∃ idx before after,
          (md.positions (hash_value heap key)).find? (fun i => !(md.entries i).alive) = some idx ∧
          md.positions (hash_value heap key) = before ++ idx :: after ∧ idx < md.capacity ∧
          (md.entries idx).alive = false ∧ (∀ i ∈ before, (md.entries i).alive = true) ∧
          setFrom heap md key value (md.positions (hash_value heap key)) none =
            some { md.store idx ⟨key, value, hash_value heap key, true⟩ with
              count := md.count + 1 }) := by
  cases found : map_find heap md key with
  | some idx =>
    obtain ⟨taken, matching⟩ := mem_of_map_find found
    obtain ⟨-, before, after, split, passed⟩ := find?_eq_some_iff_append.mp found
    refine Or.inl ⟨idx, taken, matching, ?_⟩
    rw [split]
    apply setFrom_found matching
    intro i member
    rw [← matching.2.1] at split
    exact ⟨represents.reachable idx taken before after split i member,
      by simpa using passed i member⟩
  | none =>
    have absent : ∀ i ∈ md.positions (hash_value heap key),
        ¬(md.entries i).Matches heap key := by
      simpa using find?_eq_none.mp found
    have fresh : ∃ i ∈ md.positions (hash_value heap key), (md.entries i).Fresh := by
      rcases room with ⟨i, bound, here⟩ | ⟨i, bound, here⟩
      · exact absurd here (absent i ((mem_positions md _ i).mpr bound))
      · exact ⟨i, (mem_positions md _ i).mpr bound, here⟩
    obtain ⟨i, member, isFresh⟩ := fresh
    obtain ⟨idx, before, after, first, split, bound, dead, passed⟩ := exists_first_dead
      ⟨i, (mem_positions md _ i).mp member, isFresh.1⟩ (hash_value heap key)
    refine Or.inr ⟨rfl, fun i bound => absent i ((mem_positions md _ i).mpr bound), idx, before,
      after, first, split, bound, dead, passed, ?_⟩
    rw [split] at absent member ⊢
    exact setFrom_absent absent ⟨i, member, isFresh⟩ dead passed

theorem set_loop (represents : Represents heap md contents) {key : LRValue}
    (recognised : Recognises heap md key)
    (room : (∃ i < md.capacity, (md.entries i).Matches heap key) ∨
      ∃ i < md.capacity, (md.entries i).Fresh) (value : LRValue) :
    ∃ md', setFrom heap md key value (md.positions (hash_value heap key)) none = some md' ∧
      Represents heap md' (contents.insert (mapKey heap key) value) := by
  rcases set_loop_store represents room value with ⟨idx, taken, matching, stored⟩ |
    ⟨missed, -, idx, before, after, -, split, bound, dead, passed, stored⟩
  · refine ⟨_, stored, ?_⟩
    rw [← mapKey_eq matching.2.2]
    exact represents.replace (changed_store md idx _) rfl taken
  · refine ⟨_, stored, ?_⟩
    apply represents.fill _ rfl bound dead
    · rw [represents.find recognised, missed]
      rfl
    · intro before' after' split' j earlier isFresh'
      rw [split_unique split split'] at earlier
      have alive := passed j earlier
      rw [isFresh'.1] at alive
      cases alive
    · exact ⟨rfl, update_self .., fun _ other => update_of_ne other ..⟩

/-! ## Growing -/

/-- The new table after the entries of `n` slots are copied. -/
def copied (md : LRMapData) (n : Nat) : LRMapData :=
  (List.range n).foldl (fun grown i =>
    if (md.entries i).alive then rehash grown (md.entries i) else grown) (doubled md)

theorem copied_succ (md : LRMapData) (n : Nat) :
    copied md (n + 1) = if (md.entries n).alive then rehash (copied md n) (md.entries n)
      else copied md n := by
  rw [copied, range_succ, foldl_append]
  rfl

structure Copies (heap : Heap) (md : LRMapData) (n : Nat) (grown : LRMapData)
    (contents : Contents) : Prop where
  represents : Represents heap grown contents
  capacity : grown.capacity = md.capacity * 2
  clean : ∀ i, (grown.entries i).alive = false → (grown.entries i).hash ≠ tombstoneHash
  few : grown.count ≤ n
  entries : ∀ i ∈ grown.taken, ∃ j < n, (md.entries j).alive = true ∧
    grown.entries i = md.entries j
  lookup : ∀ key value, contents.lookup key = some value ↔
    ∃ j < n, (md.entries j).alive = true ∧ mapKey heap (md.entries j).key = key ∧
      (md.entries j).value = value

theorem copies_zero (heap : Heap) (md : LRMapData) : Copies heap md 0 (doubled md) ∅ where
  represents := .of_dead (fun _ => rfl) rfl
  capacity := rfl
  clean := fun _ _ => by simp [doubled, LRMapEntry.zero, tombstoneHash]
  few := Nat.le_refl 0
  entries := fun i taken => by simpa [doubled, LRMapEntry.zero] using (mem_taken.mp taken).2
  lookup := by simp

section

variable (represents : Represents heap md contents)
include represents

/-- Rehashing one more entry copies one more key. -/
theorem Copies.succ {n : Nat} (bound : n < md.capacity) {grown : LRMapData} {so_far : Contents}
    (copies : Copies heap md n grown so_far) (alive : (md.entries n).alive = true) :
    Copies heap md (n + 1) (rehash grown (md.entries n))
      (so_far.insert (mapKey heap (md.entries n).key) (md.entries n).value) := by
  have taken : n ∈ md.taken := mem_taken.mpr ⟨bound, alive⟩
  have entry : md.entries n = ⟨(md.entries n).key, (md.entries n).value,
      hash_value heap (md.entries n).key, true⟩ := by
    rw [← represents.hashed n taken, ← alive]
  have absent : so_far.lookup (mapKey heap (md.entries n).key) = none := by
    rw [eq_none_iff_forall_not_mem]
    intro value found
    obtain ⟨j, before, alive', same, -⟩ := (copies.lookup _ _).mp found
    have taken' : j ∈ md.taken := mem_taken.mpr ⟨before.trans bound, alive'⟩
    exact absurd (represents.unique j taken' n taken same) before.ne
  have room : grown.taken.card < grown.capacity := by
    rw [← copies.represents.counted, copies.capacity]
    have few := copies.few
    omega
  obtain ⟨idx, before, after, found, split, inside, dead, passed⟩ :=
    exists_first_dead (exists_dead room) (md.entries n).hash
  have stored : rehash grown (md.entries n) =
      { grown.store idx (md.entries n) with count := grown.count + 1 } := by
    rw [rehash, found]
  have changed : Changed grown (rehash grown (md.entries n)) idx (md.entries n) := by
    rw [stored]
    exact ⟨rfl, update_self .., fun _ other => update_of_ne other ..⟩
  constructor
  · apply copies.represents.fill
      ⟨changed.capacity, changed.here.trans entry, changed.there⟩ _ inside dead absent
    · intro before' after' split' j earlier isFresh
      rw [← represents.hashed n taken] at split'
      rw [split_unique split split'] at earlier
      have alive' := passed j earlier
      rw [isFresh.1] at alive'
      cases alive'
    · rw [stored]
  · rw [changed.capacity, copies.capacity]
  · intro i dead'
    by_cases same : i = idx
    · rw [same, changed.here, alive] at dead'
      cases dead'
    · rw [changed.there i same] at dead' ⊢
      exact copies.clean i dead'
  · rw [stored]
    exact Nat.succ_le_succ copies.few
  · intro i taken'
    by_cases same : i = idx
    · exact ⟨n, Nat.lt_succ_self n, alive, by rw [same, changed.here]⟩
    · rw [mem_taken, changed.there i same, changed.capacity] at taken'
      obtain ⟨j, earlier, alive', copy⟩ := copies.entries i (mem_taken.mpr taken')
      exact ⟨j, Nat.lt_succ_of_lt earlier, alive', by rw [changed.there i same, copy]⟩
  · intro key value
    by_cases same : key = mapKey heap (md.entries n).key
    · rw [same, Finmap.lookup_insert, some.injEq]
      constructor
      · intro holds
        exact ⟨n, Nat.lt_succ_self n, alive, rfl, holds⟩
      · rintro ⟨j, before, alive', found', holds⟩
        have taken' : j ∈ md.taken :=
          mem_taken.mpr ⟨(Nat.le_of_lt_succ before).trans_lt bound, alive'⟩
        rw [← holds, represents.unique j taken' n taken found']
    · rw [Finmap.lookup_insert_of_ne _ same, copies.lookup]
      constructor
      · rintro ⟨j, before, rest⟩
        exact ⟨j, Nat.lt_succ_of_lt before, rest⟩
      · rintro ⟨j, before, alive', found', holds⟩
        rcases Nat.lt_succ_iff_lt_or_eq.mp before with earlier | rfl
        · exact ⟨j, earlier, alive', found', holds⟩
        · exact absurd found'.symm same

theorem copies_all (n : Nat) (bound : n ≤ md.capacity) :
    ∃ so_far, Copies heap md n (copied md n) so_far := by
  induction n with
  | zero => exact ⟨∅, copies_zero heap md⟩
  | succ n ih =>
    obtain ⟨so_far, copies⟩ := ih (Nat.le_of_succ_le bound)
    rw [copied_succ]
    split
    · next alive => exact ⟨_, copies.succ represents bound alive⟩
    · next dead =>
        refine ⟨so_far, copies.represents, copies.capacity, copies.clean,
          Nat.le_succ_of_le copies.few, ?_, ?_⟩
        · intro i taken
          obtain ⟨j, earlier, alive, copy⟩ := copies.entries i taken
          exact ⟨j, Nat.lt_succ_of_lt earlier, alive, copy⟩
        · intro key value
          rw [copies.lookup]
          constructor
          · rintro ⟨j, before, rest⟩
            exact ⟨j, Nat.lt_succ_of_lt before, rest⟩
          · rintro ⟨j, before, alive, rest⟩
            rcases Nat.lt_succ_iff_lt_or_eq.mp before with earlier | rfl
            · exact ⟨j, earlier, alive, rest⟩
            · exact absurd alive dead

/-- A resized table has the same contents, and room. -/
theorem resize {allocated : Bool} (fits : allocated = true ∧ md.capacity * 2 < 2 ^ 31) :
    ∃ grown, map_data_resize md allocated = some grown ∧ Represents heap grown contents ∧
      (∃ i < grown.capacity, (grown.entries i).Fresh) ∧
      ∀ key, Recognises heap md key → Recognises heap grown key := by
  obtain ⟨all, copies⟩ := copies_all represents md.capacity (Nat.le_refl _)
  have same : all = contents := by
    apply Finmap.ext_lookup
    intro key
    apply ext
    intro value
    rw [copies.lookup, represents.lookup]
    apply exists_congr
    intro i
    rw [mem_taken, and_assoc]
  refine ⟨copied md md.capacity, if_pos fits, same ▸ copies.represents, ?_, ?_⟩
  · have room : (copied md md.capacity).taken.card < (copied md md.capacity).capacity := by
      rw [← copies.represents.counted, copies.capacity]
      have few := copies.few
      have positive := capacity_pos md
      omega
    obtain ⟨i, bound, dead⟩ := exists_dead room
    exact ⟨i, bound, dead, copies.clean i dead⟩
  · intro key recognised i bound alive same
    obtain ⟨j, bound', alive', copy⟩ := copies.entries i (mem_taken.mpr ⟨bound, alive⟩)
    rw [copy] at same ⊢
    exact recognised j bound' alive' same

theorem set_represents {key : LRValue} (recognised : Recognises heap md key) {allocated : Bool}
    (room : HasRoom heap md key allocated) (value : LRValue) :
    ∃ md', map_data_set heap md key value allocated = (md', true) ∧
      Represents heap md' (contents.insert (mapKey heap key) value) := by
  by_cases crowded : Crowded md
  · rw [HasRoom, if_pos crowded] at room
    obtain ⟨grown, resized, kept, fresh, known⟩ := resize represents room
    obtain ⟨md', looped, holds⟩ := set_loop kept (known key recognised) (Or.inr fresh) value
    refine ⟨md', ?_, holds⟩
    rw [map_data_set, if_pos crowded, resized]
    dsimp only
    rw [looped]
  · rw [HasRoom, if_neg crowded] at room
    obtain ⟨md', looped, holds⟩ := set_loop represents recognised room value
    refine ⟨md', ?_, holds⟩
    rw [map_data_set, if_neg crowded]
    dsimp only
    rw [looped]

end

end Setting

/-! ## Calls -/

def MapRepresents (heap : Heap) (map : MapObject) (contents : Contents) : Prop :=
  Represents heap map.data contents ∧ map.size = map.data.count

theorem represents_new (heap : Heap) : MapRepresents heap js_map_constructor ∅ :=
  ⟨.of_dead (fun _ => rfl) rfl, rfl⟩

theorem represents_clear (heap : Heap) (map : MapObject) :
    MapRepresents heap (js_map_clear map).2 ∅ := by
  refine ⟨.of_dead ?_ rfl, rfl⟩
  intro i
  cases alive : (map.data.entries i).alive <;> simp [js_map_clear, map_sync_size, alive]

section Calls

variable {heap : Heap} {map : MapObject} {contents : Contents}

/-- A call that meets the condition answers and changes what the contents say. -/
theorem call_represents (this : Addr) (represents : MapRepresents heap map contents) {now : Call}
    (meets : Meets heap map.data now) :
    (call heap this map now).1 = (contents.call heap this now).1 ∧
      MapRepresents heap (call heap this map now).2 (contents.call heap this now).2 := by
  cases now with
  | set key value allocated =>
    obtain ⟨md', done, holds⟩ := set_represents represents.1 meets.1 meets.2 value
    rw [call, js_map_set, done]
    exact ⟨rfl, holds, rfl⟩
  | get key =>
    have searched := represents.1.find meets
    refine ⟨?_, represents⟩
    rw [call, Contents.call, searched, js_map_get]
    cases map_find heap map.data key <;> rfl
  | has key =>
    have searched := represents.1.find meets
    refine ⟨?_, represents⟩
    rw [call, Contents.call, searched, js_map_has, isSome_map]
  | delete key =>
    have searched := represents.1.find meets
    rw [call, Contents.call, searched, js_map_delete, isSome_map]
    cases found : map_find heap map.data key with
    | none =>
      have absent : mapKey heap key ∉ contents := by
        rw [← Finmap.lookup_eq_none, searched, found]
        rfl
      have same : contents.erase (mapKey heap key) = contents := by
        apply Finmap.ext_lookup
        intro other
        by_cases here : other = mapKey heap key
        · rw [here, Finmap.lookup_erase, Finmap.lookup_eq_none.mpr absent]
        · rw [Finmap.lookup_erase_ne here]
      exact ⟨rfl, by rwa [same]⟩
    | some idx =>
      obtain ⟨taken, matching⟩ := mem_of_map_find found
      refine ⟨rfl, ?_, rfl⟩
      rw [← mapKey_eq matching.2.2]
      apply represents.1.remove _ rfl taken
      exact ⟨rfl, update_self .., fun _ other => update_of_ne other ..⟩
  | clear =>
    exact ⟨rfl, represents_clear heap map⟩

theorem answers_represents (this : Addr) (represents : MapRepresents heap map contents)
    {calls : List Call} (meets : AllMeet heap this map calls) :
    answers heap this map calls = contents.answers heap this calls := by
  induction calls generalizing map contents with
  | nil => rfl
  | cons now rest ih =>
    obtain ⟨answer, after⟩ := call_represents this represents meets.1
    have size : (call heap this map now).2.size = (contents.call heap this now).2.keys.card := by
      rw [after.1.size, after.2]
    simp only [answers, Contents.answers, answer, size, ih after meets.2]

end Calls

/-- A Map answers as a finite map up to SameValueZero, as long as it recognises the keys of the
calls and has room for those that are set. -/
theorem map_refines (heap : Heap) (this : Addr) (calls : List Call)
    (meets : AllMeet heap this js_map_constructor calls) :
    answers heap this js_map_constructor calls = Contents.answers heap this ∅ calls :=
  answers_represents this (represents_new heap) meets

/-! ## Runs -/

def oneBigint : Heap where
  bigints := fun ptr => if ptr = 64 then some 7 else none
  symbols := fun _ => 0

/-- Keys of many kinds are set, read, deleted and cleared. -/
theorem map_refines_mixed :
    let calls : List Call :=
      [.set (.int32 1) (.string "one") true, .set (.float64 .nan) (.string "nan") true,
        .set (.object 64) (.string "seven") true, .get (.float64 .nan), .delete (.int32 1),
        .has (.int32 1), .get (.object 64), .clear, .has (.object 64)]
    answers oneBigint 1 js_map_constructor calls = Contents.answers oneBigint 1 ∅ calls :=
  map_refines oneBigint 1 _ (by decide +kernel)

/-- Set and delete the numbers below `n`, one after the other. -/
def churn (n : Nat) : List Call :=
  (List.range n).flatMap fun i => [.set (.int32 i) .null true, .delete (.int32 i)]

/-- A set is lost when every slot is a tombstone, and the two zeros are two keys. -/
theorem map_loses_set :
    let late := churn 16 ++ [.set (.int32 16) (.bool true) true, .get (.int32 16)]
    let zeros : List Call := [.set (.int32 0) (.bool true) true, .get (.float64 .negZero)]
    answers oneBigint 1 js_map_constructor late ≠ Contents.answers oneBigint 1 ∅ late ∧
      answers oneBigint 1 js_map_constructor zeros ≠ Contents.answers oneBigint 1 ∅ zeros := by
  decide +kernel

end LRJS.Maps
