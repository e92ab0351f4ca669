import LRJS.Iteration

/-!
# Iteration in the order of insertion

As long as every new key gets a slot behind all entries, and a table that
grows keeps the order of its entries, iteration follows the order of insertion
and misses no entry that stays.
-/

namespace LRJS

open Cursors List Option

namespace Maps

section Track

variable {heap : Heap} {md md' : LRMapData} {contents : Contents}
  {start history : History MapKey} {index : Nat} {births : List Nat}

theorem cells_eq_some {i : Nat} {key : MapKey} : (md.cells heap).key i = some key ↔
    (md.entries i).alive = true ∧ mapKey heap (md.entries i).key = key := by
  unfold LRMapData.cells LRMapData.entryAt
  dsimp only
  split
  · next alive => simp [alive]
  · next dead => simp [dead]

theorem cells_isSome {i : Nat} : ((md.cells heap).key i).isSome ↔ (md.entries i).alive = true := by
  rw [isSome_iff_exists]
  constructor
  · rintro ⟨key, here⟩
    exact (cells_eq_some.mp here).1
  · intro alive
    exact ⟨_, cells_eq_some.mpr ⟨alive, rfl⟩⟩

theorem cells_congr (capacity : md'.capacity = md.capacity)
    (same : ∀ i, (md'.entries i).alive = (md.entries i).alive ∧
      (md'.entries i).key = (md.entries i).key) : md'.cells heap = md.cells heap := by
  unfold LRMapData.cells LRMapData.entryAt
  congr 1
  funext i
  obtain ⟨alive, key⟩ := same i
  rw [alive]
  cases (md.entries i).alive with
  | true => exact congrArg (fun key => some (mapKey heap key)) key
  | false => rfl

section

variable (represents : Represents heap md contents)
include represents

theorem Represents.exists_cell_iff {key : MapKey} :
    (∃ i < md.capacity, (md.cells heap).key i = some key) ↔ (contents.lookup key).isSome := by
  rw [isSome_iff_exists]
  constructor
  · rintro ⟨i, bound, here⟩
    obtain ⟨alive, same⟩ := cells_eq_some.mp here
    exact ⟨_, (represents.lookup key _).mpr ⟨i, mem_taken.mpr ⟨bound, alive⟩, same, rfl⟩⟩
  · rintro ⟨value, found⟩
    obtain ⟨i, taken, same, _⟩ := (represents.lookup key value).mp found
    obtain ⟨bound, alive⟩ := mem_taken.mp taken
    exact ⟨i, bound, cells_eq_some.mpr ⟨alive, same⟩⟩

theorem Represents.cell_unique {i j : Nat}
    (boundI : i < md.capacity) (boundJ : j < md.capacity) {key : MapKey}
    (hereI : (md.cells heap).key i = some key) (hereJ : (md.cells heap).key j = some key) :
    i = j := by
  obtain ⟨aliveI, sameI⟩ := cells_eq_some.mp hereI
  obtain ⟨aliveJ, sameJ⟩ := cells_eq_some.mp hereJ
  exact represents.unique i (mem_taken.mpr ⟨boundI, aliveI⟩) j (mem_taken.mpr ⟨boundJ, aliveJ⟩)
    (sameI.trans sameJ.symm)

theorem Represents.moved (represents' : Represents heap md' contents)
    (order : SameOrder index (md.cells heap) (md'.cells heap)) :
    Moved index (md.cells heap) (md'.cells heap) := by
  apply order.moved
  · intro key
    exact represents.exists_cell_iff.trans represents'.exists_cell_iff.symm
  · intro i bound j bound' key here there
    exact represents'.cell_unique bound bound' here there

/-- The probing loop of `set` leaves what a walk has visited, and in which order. -/
theorem set_loop_tracks {key : LRValue} (value : LRValue) (recognised : Recognises heap md key)
    (room : (∃ i < md.capacity, (md.entries i).Matches heap key) ∨
      ∃ i < md.capacity, (md.entries i).Fresh) (appends : Appends heap md key)
    (tracks : Tracks start history (md.cells heap) index births) :
    ∃ md', setFrom heap md key value (md.positions (hash_value heap key)) none = some md' ∧
      Tracks start (history.insert (mapKey heap key)) (md'.cells heap) index births := by
  rcases set_loop_store represents room value with ⟨idx, taken, matching, stored⟩ |
    ⟨-, absent, idx, before, after, first, -, bound, dead, -, stored⟩
  · refine ⟨_, stored, ?_⟩
    have bound := (mem_taken.mp taken).1
    obtain ⟨birth, since⟩ := tracks.born idx bound (mapKey heap key)
      (cells_eq_some.mpr ⟨matching.1, mapKey_eq matching.2.2⟩)
    have inserted : history.insert (mapKey heap key) = history := by
      rw [History.insert, since]
      rfl
    have cells : (md.store idx { md.entries idx with value := value }).cells heap =
        md.cells heap := by
      apply cells_congr
      · rfl
      intro i
      by_cases same : i = idx
      · rw [same]
        simp [LRMapData.store]
      · simp [LRMapData.store, same]
    rw [inserted, cells]
    exact tracks
  · refine ⟨_, stored, ?_⟩
    apply tracks.fill
    · rw [eq_none_iff_forall_not_mem]
      intro birth since
      obtain ⟨i, bound', here⟩ := tracks.listed _ birth since
      obtain ⟨alive, same⟩ := cells_eq_some.mp here
      exact absent i bound' (recognised i bound' alive same)
    · have last := appends.resolve_left (fun present => by
        obtain ⟨i, bound', here⟩ := present
        exact absent i bound' here)
      constructor
      · exact bound
      · intro i bound' here
        exact last idx bound first i bound' (cells_isSome.mp here)
      · rw [cells_eq_some]
        simp [LRMapData.store]
      · intro i other
        simp [LRMapData.cells, LRMapData.store, LRMapData.entryAt, other]
      · rfl

theorem set_tracks {key value : LRValue} {allocated : Bool} (recognised : Recognises heap md key)
    (room : HasRoom heap md key allocated) (order : ∀ md' ∈ roomFor md allocated,
      SameOrder index (md.cells heap) (md'.cells heap) ∧ Appends heap md' key)
    (tracks : Tracks start history (md.cells heap) index births) :
    Tracks start (history.insert (mapKey heap key))
      ((map_data_set heap md key value allocated).1.cells heap) index births := by
  unfold map_data_set
  by_cases crowded : Crowded md
  · rw [HasRoom, if_pos crowded] at room
    obtain ⟨grown, resized, kept, fresh, known⟩ := resize represents room
    obtain ⟨same, appends⟩ := order grown (by rw [roomFor, if_pos crowded, resized]; rfl)
    obtain ⟨md', looped, tracks'⟩ := set_loop_tracks kept value (known key recognised)
      (Or.inr fresh) appends (tracks.move (represents.moved kept same))
    rw [if_pos crowded, resized]
    dsimp only
    rw [looped]
    exact tracks'
  · rw [HasRoom, if_neg crowded] at room
    obtain ⟨_, appends⟩ := order md (by rw [roomFor, if_neg crowded]; rfl)
    obtain ⟨md', looped, tracks'⟩ :=
      set_loop_tracks represents value recognised room appends tracks
    rw [if_neg crowded]
    dsimp only
    rw [looped]
    exact tracks'

theorem delete_tracks {key : LRValue} {map : MapObject}
    (data : map.data = md) (recognised : Recognises heap md key)
    (tracks : Tracks start history (md.cells heap) index births) :
    Tracks start (history.remove (mapKey heap key))
      ((js_map_delete heap map key).2.data.cells heap) index births := by
  unfold js_map_delete
  rw [data]
  cases found : map_find heap md key with
  | none =>
    rw [data]
    apply tracks.remove rfl
    intro i bound other
    rw [iff_self_and]
    rintro here rfl
    obtain ⟨alive, same⟩ := cells_eq_some.mp here
    have missed := find?_eq_none.mp found i ((mem_positions md _ i).mpr bound)
    exact missed (decide_eq_true (recognised i bound alive same))
  | some idx =>
    obtain ⟨taken, matching⟩ := mem_of_map_find found
    obtain ⟨inside, alive⟩ := mem_taken.mp taken
    have key' : (md.cells heap).key idx = some (mapKey heap key) :=
      cells_eq_some.mpr ⟨alive, mapKey_eq matching.2.2⟩
    apply tracks.remove
    · rfl
    intro i bound other
    by_cases same : i = idx
    · rw [same, cells_eq_some, key']
      simp [map_sync_size, LRMapData.store, LRMapEntry.tombstone, eq_comm]
    · have kept : ((map_sync_size { md.store idx .tombstone with
          count := md.count - 1 }).data.cells heap).key i = (md.cells heap).key i := by
        simp [map_sync_size, LRMapData.cells, LRMapData.store, LRMapData.entryAt, same]
      rw [kept, iff_self_and]
      rintro here rfl
      exact same (represents.cell_unique bound inside here key')

end

theorem keepsTrack (heap : Heap) (this : Addr) :
    (maps heap this).KeepsTrack (fun map => ∃ contents, MapRepresents heap map contents)
      (KeepsOrder heap) := by
  rintro map index now start history births ⟨contents, represents⟩ keeps tracks
  refine ⟨_, rfl, ?_⟩
  cases now with
  | set key value allocated =>
    obtain ⟨meets, order⟩ := keeps
    exact ⟨⟨_, (call_represents this represents meets).2⟩,
      set_tracks represents.1 meets.1 meets.2 order tracks⟩
  | get key | has key => exact ⟨⟨contents, represents⟩, tracks⟩
  | delete key =>
    have meets : Meets heap map.data (.delete key) := keeps
    exact ⟨⟨_, (call_represents this represents meets).2⟩,
      delete_tracks represents.1 rfl meets tracks⟩
  | clear =>
    refine ⟨⟨_, represents_clear heap map⟩, tracks.clear rfl ?_⟩
    intro i
    cases alive : (map.data.entries i).alive <;>
      simp [maps, Collection.cells, call, js_map_clear, map_sync_size, LRMapData.entryAt, alive]

end Track

end Maps

namespace Sets

open Maps (MapKey mapKey)

section Track

variable {heap : Maps.Heap} {sd sd' : LRSetData} {contents : Finset MapKey}
  {start history : History MapKey} {index : Nat} {births : List Nat}

theorem cells_eq_some {i : Nat} {key : MapKey} : (sd.cells heap).key i = some key ↔
    (sd.entries i).alive = true ∧ keyAt heap sd i = key := by
  unfold LRSetData.cells LRSetData.entryAt keyAt
  dsimp only
  split
  · next alive => simp [alive]
  · next dead => simp [dead]

theorem cells_isSome {i : Nat} : ((sd.cells heap).key i).isSome ↔ (sd.entries i).alive = true := by
  rw [isSome_iff_exists]
  constructor
  · rintro ⟨key, here⟩
    exact (cells_eq_some.mp here).1
  · intro alive
    exact ⟨_, cells_eq_some.mpr ⟨alive, rfl⟩⟩

section

variable (represents : Represents heap sd contents)
include represents

theorem Represents.exists_cell_iff {key : MapKey} :
    (∃ i < sd.capacity, (sd.cells heap).key i = some key) ↔ key ∈ contents := by
  rw [represents.mem_iff]
  apply exists_congr
  intro i
  rw [LRSetData.mem_taken, and_assoc, cells_eq_some]

theorem Represents.cell_unique {i j : Nat}
    (boundI : i < sd.capacity) (boundJ : j < sd.capacity) {key : MapKey}
    (hereI : (sd.cells heap).key i = some key) (hereJ : (sd.cells heap).key j = some key) :
    i = j := by
  obtain ⟨aliveI, sameI⟩ := cells_eq_some.mp hereI
  obtain ⟨aliveJ, sameJ⟩ := cells_eq_some.mp hereJ
  exact represents.apart (LRSetData.mem_taken.mpr ⟨boundI, aliveI⟩)
    (LRSetData.mem_taken.mpr ⟨boundJ, aliveJ⟩) (sameI.trans sameJ.symm)

theorem Represents.moved (represents' : Represents heap sd' contents)
    (order : SameOrder index (sd.cells heap) (sd'.cells heap)) :
    Moved index (sd.cells heap) (sd'.cells heap) := by
  apply order.moved
  · intro key
    exact represents.exists_cell_iff.trans represents'.exists_cell_iff.symm
  · intro i bound j bound' key here there
    exact represents'.cell_unique bound bound' here there

end

variable {value : LRValue}

theorem insert_present {i : Nat} (bound : i < sd.capacity)
    (alive : (sd.entries i).alive = true) (holds : (sd.entries i).Holds heap value)
    (tracks : Tracks start history (sd.cells heap) index births) :
    Tracks start (history.insert (mapKey heap value)) (sd.cells heap) index births := by
  obtain ⟨birth, since⟩ := tracks.born i bound (mapKey heap value)
    (cells_eq_some.mpr ⟨alive, Maps.mapKey_eq holds.2⟩)
  have inserted : history.insert (mapKey heap value) = history := by
    rw [History.insert, since]
    rfl
  rw [inserted]
  exact tracks

section

variable (represents : Represents heap sd contents)
include represents

/-- The probing loop of `add` leaves what a walk has visited, and in which order. -/
theorem addFrom_tracks (recognised : Recognises heap sd value)
    (met : MetFirst heap sd value (sd.positions (set_hash_value heap value)))
    (appends : Appends heap sd value) (tracks : Tracks start history (sd.cells heap) index births) :
    ∃ sd', addFrom heap sd value (sd.positions (set_hash_value heap value)) = some sd' ∧
      Tracks start (history.insert (mapKey heap value)) (sd'.cells heap) index births := by
  cases addFrom_cases met (represents.exists_dead _) with
  | inl found =>
    obtain ⟨same, i, member, alive, holds⟩ := found
    exact ⟨sd, same, insert_present ((sd.mem_positions _ i).mp member) alive holds tracks⟩
  | inr filled =>
    obtain ⟨idx, member, dead, first, same, absent⟩ := filled
    refine ⟨_, same, ?_⟩
    have bound := (sd.mem_positions _ idx).mp member
    have last := appends.resolve_left (fun present => by
      obtain ⟨i, bound', alive, holds⟩ := present
      exact absent i ((sd.mem_positions _ i).mpr bound') alive holds)
    apply tracks.fill
    · rw [eq_none_iff_forall_not_mem]
      intro birth since
      obtain ⟨i, bound', here⟩ := tracks.listed _ birth since
      obtain ⟨alive, key⟩ := cells_eq_some.mp here
      exact absent i ((sd.mem_positions _ i).mpr bound') alive (recognised i bound' alive key)
    · constructor
      · exact bound
      · intro i bound' here
        exact last idx bound first i bound' (cells_isSome.mp here)
      · rw [cells_eq_some]
        simp [LRSetData.store, keyAt]
      · intro i other
        simp [LRSetData.cells, LRSetData.store, LRSetData.entryAt, other]
      · rfl

/-- Adding a value that can be inserted leaves what a walk has visited. -/
theorem add_tracks {allocated : Bool} (recognised : Recognises heap sd value)
    (insertable : Insertable heap sd value allocated) (order : ∀ sd' ∈ roomFor sd allocated,
      SameOrder index (sd.cells heap) (sd'.cells heap) ∧ Appends heap sd' value)
    (tracks : Tracks start history (sd.cells heap) index births) :
    ∃ sd', set_data_add heap sd value allocated = some sd' ∧
      Tracks start (history.insert (mapKey heap value)) (sd'.cells heap) index births := by
  unfold Insertable at insertable
  unfold set_data_add
  unfold roomFor at order
  split
  · next crowded =>
      rw [if_pos crowded] at insertable
      split
      · next grows =>
          obtain ⟨grown, run, kept, _, reachable, known⟩ := resize represents
          rw [if_pos ⟨crowded, grows⟩, run] at order
          obtain ⟨same, appends⟩ := order grown rfl
          rw [run]
          exact addFrom_tracks kept (known value recognised) (reachable.metFirst value) appends
            (tracks.move (represents.moved kept same))
      · next full =>
          obtain ⟨i, found⟩ := Option.isSome_iff_exists.mp (insertable.resolve_left full)
          have here := find?_some found
          rw [Bool.and_eq_true, decide_eq_true_eq] at here
          exact ⟨sd, rfl, insert_present ((sd.mem_positions _ i).mp
            (mem_of_find?_eq_some found)) here.1 here.2 tracks⟩
  · next room =>
      rw [if_neg room] at insertable
      rw [if_neg fun both => room both.1] at order
      exact addFrom_tracks represents recognised insertable (order sd rfl).2 tracks

theorem delete_tracks
    {set : SetObject} (data : set.data = sd) (recognised : Recognises heap sd value)
    (tracks : Tracks start history (sd.cells heap) index births) :
    Tracks start (history.remove (mapKey heap value))
      ((js_set_delete heap set value).2.data.cells heap) index births := by
  unfold js_set_delete
  rw [data]
  cases found : set_find heap sd value with
  | none =>
    rw [data]
    apply tracks.remove rfl
    intro i bound other
    rw [iff_self_and]
    rintro here rfl
    obtain ⟨alive, same⟩ := cells_eq_some.mp here
    have missed := find?_eq_none.mp found i ((sd.mem_positions _ i).mpr bound)
    rw [Bool.and_eq_true, decide_eq_true_eq] at missed
    exact missed ⟨alive, recognised i bound alive same⟩
  | some idx =>
    have bound := (sd.mem_positions _ idx).mp (mem_of_find?_eq_some found)
    have entry := find?_some found
    rw [Bool.and_eq_true, decide_eq_true_eq] at entry
    have key' : (sd.cells heap).key idx = some (mapKey heap value) :=
      cells_eq_some.mpr ⟨entry.1, Maps.mapKey_eq entry.2.2⟩
    apply tracks.remove
    · rfl
    intro i inside other
    by_cases same : i = idx
    · rw [same, cells_eq_some, key']
      simp [set_sync_size, LRSetData.store, LRSetEntry.deleted, eq_comm]
    · have kept : ((set_sync_size { sd.store idx (sd.entries idx).deleted with
          count := sd.count - 1 }).data.cells heap).key i = (sd.cells heap).key i := by
        simp [set_sync_size, LRSetData.cells, LRSetData.store, LRSetData.entryAt, same]
      rw [kept, iff_self_and]
      rintro here rfl
      exact same (represents.cell_unique inside bound here key')

end

theorem keepsTrack (heap : Maps.Heap) (this : Addr) :
    (sets heap this).KeepsTrack (fun set => ∃ contents, SetRepresents heap set contents)
      (KeepsOrder heap) := by
  rintro set index now start history births ⟨contents, represents⟩ keeps tracks
  cases now with
  | add value allocated =>
    obtain ⟨meets, order⟩ := keeps
    obtain ⟨after, run, _, kept⟩ := call_represents this represents meets
    obtain ⟨sd, stored, tracks'⟩ := add_tracks represents.1 meets.1 meets.2 order tracks
    rw [call, js_set_add, stored] at run
    cases run
    exact ⟨set_sync_size sd, congrArg (Option.map _) (congrArg (Option.map _) stored),
      ⟨_, kept⟩, tracks'⟩
  | has value => exact ⟨set, rfl, ⟨contents, represents⟩, tracks⟩
  | delete value =>
    have meets : Meets heap set.data (.delete value) := keeps
    obtain ⟨after, run, _, kept⟩ := call_represents this represents meets
    cases run
    exact ⟨_, rfl, ⟨_, kept⟩, delete_tracks represents.1 rfl meets tracks⟩
  | clear =>
    have meets : Meets heap set.data .clear := trivial
    obtain ⟨after, run, _, kept⟩ := call_represents this represents meets
    cases run
    refine ⟨_, rfl, ⟨_, kept⟩, tracks.clear rfl ?_⟩
    intro i
    cases alive : (set.data.entries i).alive <;>
      simp [sets, Collection.cells, js_set_clear, set_sync_size, LRSetData.entryAt, alive,
        LRSetEntry.deleted]

end Track

end Sets

/-- After any calls, an iteration by an iterator or `forEach` is in the order of insertion, as long
as the calls in between meet the condition. -/
def VisitsInOrder {Object Call Entry : Type} (collection : Collection Object Call Entry Maps.MapKey)
    (iterator_next : Object → Nat → Option Entry × Nat)
    (forEach : (List Entry → List Call) → Nat → Walk Object Entry Maps.MapKey →
      Option (Walk Object Entry Maps.MapKey))
    (condition : Object → Nat → Call → Prop) (new : Object) : Prop :=
  ∀ calls : List Call, Runs.Throughout collection.step (Collection.Meets condition) (Walk.new new)
      (calls.map .call) →
    ∃ walk, Runs.after collection.step (Walk.new new) (calls.map .call) = some walk ∧
      (∀ steps, Runs.Throughout (collection.stepBy iterator_next) (Collection.Meets condition)
          walk.restart steps →
        ∃ reached, Runs.after (collection.stepBy iterator_next) walk.restart steps = some reached ∧
          reached.Orderly walk.history) ∧
      ∀ callback fuel, Runs.Throughout collection.step (Collection.Meets condition) walk.restart
          (collection.loopSteps callback fuel walk.restart) →
        ∃ reached, forEach callback fuel walk.restart = some reached ∧
          reached.Orderly walk.history

theorem visitsInOrder_of_keepsTrack {Object Call Entry : Type}
    {collection : Collection Object Call Entry Maps.MapKey} {Good : Object → Prop}
    {condition : Object → Nat → Call → Prop} {new : Object}
    (keeps : collection.KeepsTrack Good condition) (good : Good new)
    (free : ∀ i, collection.entry new i = none) :
    VisitsInOrder collection collection.next collection.loop condition new := by
  intro calls met
  obtain ⟨walk, arrives, orderly⟩ := Collection.orderly_of_meets keeps good free met
  refine ⟨walk, arrives, orderly, fun callback fuel met' => ?_⟩
  rw [collection.loop_eq_after]
  exact orderly _ met'

/-- Iteration visits live entries only, in the order of insertion, and all that stay, as long as
every new key gets a slot behind all entries and a table that grows keeps their order. -/
theorem iteration_in_order (heap : Maps.Heap) (this : Addr) :
    VisitsInOrder (Maps.maps heap this) (Maps.js_map_iterator_next heap this)
        (Maps.js_map_forEach heap this) (Maps.KeepsOrder heap) Maps.js_map_constructor ∧
      VisitsInOrder (Sets.sets heap this) (Sets.js_set_iterator_next heap this)
        (Sets.js_set_forEach heap this) (Sets.KeepsOrder heap) Sets.js_set_constructor :=
  ⟨visitsInOrder_of_keepsTrack (Maps.keepsTrack heap this) ⟨∅, Maps.represents_new heap⟩
      fun _ => rfl,
    visitsInOrder_of_keepsTrack (Sets.keepsTrack heap this) ⟨∅, Sets.represents_new heap⟩
      fun _ => rfl⟩

/-- A Map that is iterated over while keys are set and deleted. -/
theorem iteration_in_order_mixed :
    let step := (Maps.maps Maps.oneBigint 1).step
    let calls : List Maps.Call := [.set (.int32 1) .null true, .set (.int32 2) .null true,
      .set (.int32 3) .null true, .delete (.int32 2)]
    ∃ walk, Runs.after step (Walk.new Maps.js_map_constructor) (calls.map .call) = some walk ∧
      ∃ reached, Runs.after step walk.restart [.next, .call (.set (.int32 5) .null true), .next,
          .call (.delete (.int32 3)), .next, .next] = some reached ∧
        reached.Orderly walk.history := by
  obtain ⟨walk, arrives, orderly, _⟩ := (iteration_in_order Maps.oneBigint 1).1
    [.set (.int32 1) .null true, .set (.int32 2) .null true, .set (.int32 3) .null true,
      .delete (.int32 2)] (by decide +kernel)
  refine ⟨walk, arrives, orderly _ ?_⟩
  cases arrives
  decide +kernel

/-- A key that is set last is visited first. -/
theorem latest_visited_first :
    let step := (Maps.maps Maps.oneBigint 1).step
    let calls : List Maps.Call := [.set (.int32 10) .null true, .set (.int32 11) .null true]
    ∃ walk reached, Runs.after step (Walk.new Maps.js_map_constructor) (calls.map .call) =
        some walk ∧
      Runs.after step walk.restart [.next, .next] = some reached ∧
        ¬reached.Orderly walk.history := by
  refine ⟨_, _, rfl, rfl, fun orderly => ?_⟩
  have ascending := orderly.ascending
  revert ascending
  decide +kernel

end LRJS
