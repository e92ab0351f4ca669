import Mathlib.Data.Fintype.Card
import Mathlib.Data.List.NodupEquivFin
import Mathlib.Data.Nat.ModEq

/-!
# Linear probing

An insert-only hash table of fixed size with open addressing.  A key is
searched from its home position onwards until it, or a free cell, is met.

* cells are never freed, so an entry stays reachable from its home;
* inserting a key a second time fills a second cell, and the search keeps
  finding the first one.
-/

namespace Probing

open Function List Option

universe u v

variable {Key : Type u} {Value : Type v} {size : Nat}

abbrev Cells (Key : Type u) (Value : Type v) (size : Nat) :=
  Fin size → Option (Key × Value)

/-- All positions, in the order in which they are probed from `start`. -/
def probe (size : Nat) [NeZero size] (start : Nat) : List (Fin size) :=
  (List.range size).map fun i => Fin.ofNat size (start + i)

theorem probe_nodup [NeZero size] (start : Nat) : (probe size start).Nodup := by
  refine List.Nodup.map_on ?_ nodup_range
  intro i iBound j jBound same
  rw [mem_range] at iBound jBound
  have residues : (start + i) % size = (start + j) % size := by
    simpa [Fin.ext_iff] using same
  have cancelled : i % size = j % size :=
    Nat.ModEq.add_left_cancel' start residues
  rwa [Nat.mod_eq_of_lt iBound, Nat.mod_eq_of_lt jBound] at cancelled

theorem mem_probe [NeZero size] (start : Nat) (position : Fin size) :
    position ∈ probe size start := by
  have full : (probe size start).toFinset = Finset.univ := by
    apply Finset.eq_univ_of_card
    rw [toFinset_card_of_nodup (probe_nodup start)]
    simp [probe]
  rw [← List.mem_toFinset, full]
  exact Finset.mem_univ position

theorem split_unique {Item : Type u} {items before after before' after' : List Item} {item : Item}
    (nodup : items.Nodup) (split : items = before ++ item :: after)
    (split' : items = before' ++ item :: after') : before = before' := by
  have once := (nodup_cons.mp (nodup_middle.mp (split' ▸ nodup))).1
  rw [mem_append, not_or] at once
  exact ((append_cons_inj_of_notMem once.1 once.2).mp (split'.symm.trans split)).1.symm

theorem probe_split_unique [NeZero size] {start : Nat} {position : Fin size}
    {before after before' after' : List (Fin size)}
    (split : probe size start = before ++ position :: after)
    (split' : probe size start = before' ++ position :: after') : before = before' :=
  split_unique (probe_nodup start) split split'

/-- Walk along `positions` to the first cell with `key`, or to a free one. -/
def scan [DecidableEq Key] (cells : Cells Key Value size) (key : Key) :
    List (Fin size) → Option Value
  | [] => none
  | position :: rest =>
    match cells position with
    | none => none
    | some (found, value) => if found = key then some value else scan cells key rest

/-- The value that one cell holds for `key`. -/
def held [DecidableEq Key] (cells : Cells Key Value size) (key : Key)
    (position : Fin size) : Option Value :=
  match cells position with
  | none => none
  | some (found, value) => if found = key then some value else none

/-- Every position before an entry for `key` is taken. -/
def ReachableOn (cells : Cells Key Value size) (key : Key)
    (positions : List (Fin size)) : Prop :=
  ∀ before position after value, positions = before ++ position :: after →
    cells position = some (key, value) → ∀ taken ∈ before, (cells taken).isSome

variable {cells : Cells Key Value size}

theorem ReachableOn.tail {key : Key} {head : Fin size} {rest : List (Fin size)}
    (reachable : ReachableOn cells key (head :: rest)) : ReachableOn cells key rest := by
  intro before position after value split holds taken member
  exact reachable (head :: before) position after value (by rw [split]; rfl) holds taken
    (mem_cons_of_mem head member)

theorem findSome_congr {Item : Type u} {Found : Type v} {first second : Item → Option Found}
    {items : List Item} (same : ∀ item ∈ items, first item = second item) :
    items.findSome? first = items.findSome? second := by
  induction items with
  | nil =>
    rfl
  | cons head rest ih =>
    rw [findSome?_cons, findSome?_cons, same head mem_cons_self,
      ih fun item member => same item (mem_cons_of_mem head member)]

theorem ReachableOn.held_eq_none [DecidableEq Key]
    {key : Key} {before after : List (Fin size)} {free position : Fin size}
    (reachable : ReachableOn cells key (before ++ free :: after))
    (isFree : cells free = none) (member : position ∈ after) : held cells key position = none := by
  unfold held
  split
  · rfl
  · next found value holds =>
      rw [if_neg]
      rintro rfl
      obtain ⟨middle, rest, split⟩ := append_of_mem member
      have taken := reachable (before ++ free :: middle) position rest value
        (by simp [split]) holds free (by simp)
      simp [isFree] at taken

/-- Where the key is reachable, the scan finds what the positions hold. -/
theorem scan_eq_findSome [DecidableEq Key] {key : Key}
    {positions : List (Fin size)} (reachable : ReachableOn cells key positions) :
    scan cells key positions = positions.findSome? (held cells key) := by
  induction positions with
  | nil =>
    rfl
  | cons head rest ih =>
    rw [scan, findSome?_cons]
    cases holds : cells head with
    | none =>
      have nothing : rest.findSome? (held cells key) = none := by
        rw [findSome?_eq_none_iff]
        intro position member
        have front : ReachableOn cells key ([] ++ head :: rest) := reachable
        exact front.held_eq_none holds member
      simp [held, holds, nothing]
    | some entry =>
      by_cases same : entry.1 = key
      · simp [held, holds, same]
      · simp [held, holds, same, ih reachable.tail]

def occupied (cells : Cells Key Value size) : Nat :=
  (Finset.univ.filter fun position => (cells position).isSome).card

structure Table (home : Key → Nat) (Value : Type v) (size : Nat) [NeZero size] where
  cells : Cells Key Value size
  count : Nat
  counted : count = occupied cells
  reachable : ∀ key, ReachableOn cells key (probe size (home key))

namespace Table

variable [NeZero size] {home : Key → Nat}

def empty (home : Key → Nat) (Value : Type v) (size : Nat) [NeZero size] :
    Table home Value size where
  cells := fun _ => none
  count := 0
  counted := by simp [occupied]
  reachable := fun _ _ _ _ _ _ holds => nomatch holds

def find [DecidableEq Key] (table : Table home Value size) (key : Key) : Option Value :=
  scan table.cells key (probe size (home key))

def free (table : Table home Value size) (key : Key) : Option (Fin size) :=
  (probe size (home key)).find? fun position => (table.cells position).isNone

variable {table : Table home Value size} {key : Key} {position : Fin size}

theorem free_split (isFree : table.free key = some position) :
    table.cells position = none ∧ ∃ before after,
      probe size (home key) = before ++ position :: after ∧
        ∀ taken ∈ before, (table.cells taken).isSome := by
  obtain ⟨isNone, before, after, split, taken⟩ :=
    find?_eq_some_iff_append.mp isFree
  refine ⟨isNone_iff_eq_none.mp isNone, before, after, split, ?_⟩
  intro other member
  simpa [isSome_iff_ne_none] using taken other member

theorem free_isSome (key : Key) (room : table.count < size) : (table.free key).isSome := by
  rw [free, find?_isSome]
  by_contra none_
  have full : (Finset.univ.filter fun position : Fin size =>
      (table.cells position).isSome) = Finset.univ := by
    rw [Finset.filter_true_of_mem]
    intro position _
    by_contra isNone
    exact none_ ⟨position, mem_probe _ position, by simpa using isNone⟩
  have count := table.counted
  rw [occupied, full, Finset.card_univ, Fintype.card_fin] at count
  exact absurd count (Nat.ne_of_lt room)

def insert (table : Table home Value size) (key : Key) (value : Value) :
    Table home Value size :=
  match isFree : table.free key with
  | none => table
  | some position =>
    { cells := Function.update table.cells position (some (key, value))
      count := table.count + 1
      counted := by
        have wasFree := (free_split isFree).1
        rw [table.counted, occupied, occupied, ← Finset.card_insert_of_notMem
          (a := position) (by simp [wasFree])]
        congr 1
        ext other
        by_cases same : other = position
        · simp [same]
        · simp [same]
      reachable := by
        intro other before at_ after found split holds taken member
        obtain ⟨_, ownBefore, ownAfter, ownSplit, ownTaken⟩ := free_split isFree
        by_cases same : taken = position
        · simp [same]
        · rw [update_of_ne same]
          by_cases placed : at_ = position
          · subst placed
            rw [update_self, Option.some.injEq, Prod.mk.injEq] at holds
            rw [← holds.1] at split
            exact ownTaken taken (probe_split_unique split ownSplit ▸ member)
          · rw [update_of_ne placed] at holds
            exact table.reachable other before at_ after found split holds taken member }

theorem cells_insert (isFree : table.free key = some position) (value : Value) :
    (table.insert key value).cells =
      Function.update table.cells position (some (key, value)) := by
  unfold insert
  split
  · next full =>
      rw [isFree] at full
      cases full
  · next placed same =>
      rw [isFree] at same
      cases same
      rfl

theorem count_insert (key : Key) (value : Value)
    (room : table.count < size) : (table.insert key value).count = table.count + 1 := by
  unfold insert
  split
  · next full =>
      simpa [full] using free_isSome key room
  · rfl

theorem count_le_insert (table : Table home Value size) (key : Key) (value : Value) :
    (table.insert key value).count ≤ table.count + 1 := by
  unfold insert
  split
  · exact Nat.le_succ _
  · exact Nat.le_refl _

variable [DecidableEq Key]

theorem find_eq_findSome (table : Table home Value size) (key : Key) :
    table.find key = (probe size (home key)).findSome? (held table.cells key) :=
  scan_eq_findSome (table.reachable key)

@[simp]
theorem find_empty (key : Key) : (empty home Value size).find key = none := by
  rw [find_eq_findSome, findSome?_eq_none_iff]
  intro position _
  rfl

theorem find_insert_of_ne (table : Table home Value size) {other : Key} (value : Value)
    (different : other ≠ key) : (table.insert key value).find other = table.find other := by
  rw [find_eq_findSome, find_eq_findSome]
  unfold insert
  split
  · rfl
  · next placed isFree =>
      congr 1
      funext position
      by_cases same : position = placed
      · simp [held, same, (free_split isFree).1, different.symm]
      · simp [held, same]

/-- A key that is put in is found with its first value. -/
theorem find_insert_self (key : Key) (value : Value) (room : table.count < size) :
    (table.insert key value).find key = some ((table.find key).getD value) := by
  rw [find_eq_findSome, find_eq_findSome]
  unfold insert
  split
  · next full =>
      simpa [full] using free_isSome key room
  · next placed isFree =>
      obtain ⟨wasFree, before, after, positions, taken⟩ := free_split isFree
      have once := nodup_middle.mp (positions ▸ probe_nodup (home key))
      have untouched : before.findSome? (held (update table.cells placed
          (some (key, value))) key) = before.findSome? (held table.cells key) := by
        refine findSome_congr fun position member => ?_
        have other : position ≠ placed := by
          rintro rfl
          exact (nodup_cons.mp once).1 (mem_append_left _ member)
        simp [held, other]
      have behind : after.findSome? (held table.cells key) = none := by
        rw [findSome?_eq_none_iff]
        intro position member
        exact (positions ▸ table.reachable key).held_eq_none wasFree member
      have here : held table.cells key placed = none := by
        simp [held, wasFree]
      have filled : held (update table.cells placed (some (key, value))) key
          placed = some value := by
        simp [held]
      rw [positions, findSome?_append, findSome?_append, untouched,
        findSome?_cons, findSome?_cons, filled, here, behind]
      cases before.findSome? (held table.cells key) <;> rfl

def Unique (table : Table home Value size) : Prop :=
  ∀ position position' key value value', table.cells position = some (key, value) →
    table.cells position' = some (key, value') → position = position'

variable {value : Value}

theorem cells_of_find_none (absent : table.find key = none) :
    table.cells position ≠ some (key, value) := by
  intro holds
  rw [find_eq_findSome, findSome?_eq_none_iff] at absent
  have nothing := absent position (mem_probe _ position)
  simp [held, holds] at nothing

/-- The key of a cell is found with its value. -/
theorem find_of_cells (unique : table.Unique) (holds : table.cells position = some (key, value)) :
    table.find key = some value := by
  cases found : table.find key with
  | none => exact absurd holds (cells_of_find_none found)
  | some other =>
    rw [find_eq_findSome] at found
    obtain ⟨place, -, here⟩ := exists_of_findSome?_eq_some found
    unfold held at here
    split at here
    · cases here
    · next key' value' entry =>
        split at here
        · next same =>
            rw [same] at entry
            rw [unique place position key value' value entry holds, holds] at entry
            cases entry
            exact here.symm
        · cases here

/-- Putting in an absent key leaves every key in one cell. -/
theorem unique_insert (unique : table.Unique)
    (absent : table.find key = none) (value : Value) : (table.insert key value).Unique := by
  unfold insert
  split
  · exact unique
  · next placed isFree =>
      intro position position' key' value₁ value₂ holds holds'
      dsimp only at holds holds'
      by_cases here : position = placed
      · by_cases here' : position' = placed
        · rw [here, here']
        · rw [here, update_self, some.injEq, Prod.mk.injEq] at holds
          rw [update_of_ne here', ← holds.1] at holds'
          exact absurd holds' (cells_of_find_none absent)
      · rw [update_of_ne here] at holds
        by_cases here' : position' = placed
        · rw [here', update_self, some.injEq, Prod.mk.injEq] at holds'
          rw [← holds'.1] at holds
          exact absurd holds (cells_of_find_none absent)
        · rw [update_of_ne here'] at holds'
          exact unique position position' key' value₁ value₂ holds holds'

def refill (table : Table home Value size) {newSize : Nat} [NeZero newSize]
    (start : Table home Value newSize) (positions : List (Fin size)) :
    Table home Value newSize :=
  positions.foldl (fun grown position =>
    match table.cells position with
    | some (key, value) => grown.insert key value
    | none => grown) start

omit [DecidableEq Key] in
theorem refill_append_none {newSize : Nat} [NeZero newSize]
    {start : Table home Value newSize} {before : List (Fin size)}
    (entry : table.cells position = none) :
    table.refill start (before ++ [position]) = table.refill start before := by
  rw [refill, foldl_append, foldl_cons, entry]
  rfl

omit [DecidableEq Key] in
theorem refill_append_some {newSize : Nat} [NeZero newSize]
    {start : Table home Value newSize} {before : List (Fin size)}
    (entry : table.cells position = some (key, value)) :
    table.refill start (before ++ [position]) =
      (table.refill start before).insert key value := by
  rw [refill, foldl_append, foldl_cons, entry]
  rfl

def taken (table : Table home Value size) (positions : List (Fin size)) : Nat :=
  (positions.filter fun position => (table.cells position).isSome).length

omit [DecidableEq Key] in
theorem taken_le_count (table : Table home Value size) {positions : List (Fin size)}
    (nodup : positions.Nodup) : table.taken positions ≤ table.count := by
  rw [table.counted, occupied, taken, ← toFinset_card_of_nodup (nodup.filter _)]
  apply Finset.card_le_card
  intro position member
  simpa using (mem_filter.mp (mem_toFinset.mp member)).2

omit [DecidableEq Key] in
theorem taken_finRange (table : Table home Value size) :
    table.taken (List.finRange size) = table.count := by
  rw [table.counted, occupied, taken,
    ← toFinset_card_of_nodup ((nodup_finRange size).filter _)]
  congr 1
  ext position
  simp

/-- Refilling a larger table from distinct cells finds what the cells held. -/
theorem refill_spec (table : Table home Value size) (unique : table.Unique)
    {newSize : Nat} [NeZero newSize] (room : table.count ≤ newSize)
    (positions : List (Fin size)) (nodup : positions.Nodup) :
    let grown := table.refill (empty home Value newSize) positions
    grown.count = table.taken positions ∧ grown.Unique ∧
      ∀ key, grown.find key = positions.findSome? (held table.cells key) := by
  induction positions using reverseRecOn with
  | nil =>
    refine ⟨rfl, ?_, fun key => find_empty key⟩
    intro position position' key value value' holds
    cases holds
  | append_singleton before position ih =>
    have distinct := nodup_append.mp nodup
    obtain ⟨count, uniqueSoFar, contents⟩ := ih distinct.1
    cases entry : table.cells position with
    | none =>
      rw [refill_append_none entry]
      refine ⟨?_, uniqueSoFar, fun key => ?_⟩
      · rw [count, taken, taken, filter_append]
        simp [entry]
      · rw [contents, findSome?_append]
        simp [held, entry]
    | some pair =>
      obtain ⟨key, value⟩ := pair
      rw [refill_append_some entry]
      have notBefore : before.findSome? (held table.cells key) = none := by
        rw [findSome?_eq_none_iff]
        intro other member
        unfold held
        split
        · rfl
        · next key' value' holds =>
            rw [if_neg]
            rintro rfl
            have same := unique other position key' value' value holds entry
            exact distinct.2.2 other member position mem_cons_self same
      have absent : (table.refill (empty home Value newSize) before).find key = none := by
        rw [contents, notBefore]
      have larger : table.taken (before ++ [position]) = table.taken before + 1 := by
        rw [taken, taken, filter_append]
        simp [entry]
      have below := table.taken_le_count nodup
      have free : (table.refill (empty home Value newSize) before).count < newSize := by
        omega
      refine ⟨?_, unique_insert uniqueSoFar absent value, fun other => ?_⟩
      · rw [count_insert key value free, count, larger]
      · rw [findSome?_append]
        by_cases same : other = key
        · rw [same, find_insert_self key value free, absent, notBefore]
          simp [held, entry]
        · rw [find_insert_of_ne _ value same, contents]
          have elsewhere : held table.cells other position = none := by
            simp [held, entry, Ne.symm same]
          simp [elsewhere]

/-- In a table without double keys, probing finds what a scan of all cells finds. -/
theorem find_eq_finRange (table : Table home Value size) (unique : table.Unique) (key : Key) :
    (List.finRange size).findSome? (held table.cells key) = table.find key := by
  cases found : table.find key with
  | none =>
    rw [findSome?_eq_none_iff]
    rw [find_eq_findSome, findSome?_eq_none_iff] at found
    exact fun position _ => found position (mem_probe _ position)
  | some value =>
    cases other : (finRange size).findSome? (held table.cells key) with
    | none =>
      rw [find_eq_findSome] at found
      obtain ⟨place, -, here⟩ := exists_of_findSome?_eq_some found
      rw [findSome?_eq_none_iff] at other
      rw [other place (mem_finRange place)] at here
      cases here
    | some value' =>
      obtain ⟨place, -, here⟩ := exists_of_findSome?_eq_some other
      unfold held at here
      split at here
      · cases here
      · next key' entry holds =>
          split at here
          · next same =>
              cases here
              rw [same] at holds
              rw [← found, find_of_cells unique holds]
          · cases here

def rehash (table : Table home Value size) (newSize : Nat) [NeZero newSize] :
    Table home Value newSize :=
  table.refill (empty home Value newSize) (List.finRange size)

section Rehash

variable {table : Table home Value size} {newSize : Nat} [NeZero newSize]

section

variable (unique : table.Unique) (room : table.count ≤ newSize)
include unique room

theorem count_rehash : (table.rehash newSize).count = table.count :=
  (table.refill_spec unique room _ (nodup_finRange size)).1.trans table.taken_finRange

theorem unique_rehash : (table.rehash newSize).Unique :=
  (table.refill_spec unique room _ (nodup_finRange size)).2.1

theorem find_rehash (key : Key) : (table.rehash newSize).find key = table.find key :=
  ((table.refill_spec unique room _ (nodup_finRange size)).2.2 key).trans
    (table.find_eq_finRange unique key)

end

end Rehash

def look (table : Table home Value size) (key : Key) (position : Fin size) :
    Option (Value ⊕ Fin size) :=
  match table.cells position with
  | none => some (.inr position)
  | some (found, value) => if found = key then some (.inl value) else none

theorem look_of_none (key : Key)
    (entry : table.cells position = none) : table.look key position = some (.inr position) := by
  rw [look, entry]

theorem look_of_some (key : Key)
    {found : Key} (entry : table.cells position = some (found, value)) :
    table.look key position = if found = key then some (.inl value) else none := by
  rw [look, entry]

def seek (table : Table home Value size) (key : Key) : Option (Value ⊕ Fin size) :=
  (probe size (home key)).findSome? (table.look key)

theorem seek_eq (table : Table home Value size) (key : Key) :
    table.seek key =
      match table.find key with
      | some value => some (.inl value)
      | none => (table.free key).map .inr := by
  unfold seek find free
  generalize probe size (home key) = positions
  induction positions with
  | nil => rfl
  | cons position rest ih =>
    rw [findSome?_cons, find?_cons, scan]
    cases entry : table.cells position with
    | none =>
      rw [look_of_none key entry]
      rfl
    | some pair =>
      rw [look_of_some key entry]
      by_cases same : pair.1 = key
      · simp [same]
      · simpa [same] using ih

end Table

section Walk

variable {Found : Type v}

def walk (next : Nat → Nat) (answer : Nat → Option Found) : Nat → Nat → Option Found
  | 0, _ => none
  | fuel + 1, position =>
    match answer position with
    | some found => some found
    | none => walk next answer fuel (next position)

variable {next : Nat → Nat}

/-- A cyclic walk answers at the first position that has an answer. -/
theorem walk_eq_findSome (answer : Nat → Option Found) {size : Nat}
    (cyclic : ∀ position < size, next position = (position + 1) % size) (positive : 0 < size)
    (fuel start : Nat) :
    walk next answer fuel (start % size) =
      ((List.range fuel).map fun i => (start + i) % size).findSome? answer := by
  induction fuel generalizing start with
  | zero => rfl
  | succ fuel ih =>
    have later : (range (fuel + 1)).map (fun i => (start + i) % size) =
        start % size :: (range fuel).map fun i => (start + 1 + i) % size := by
      rw [List.range_succ_eq_map, List.map_cons, List.map_map]
      refine congrArg₂ cons rfl (map_congr_left fun i _ => ?_)
      change (start + (i + 1)) % size = _
      rw [Nat.add_assoc, Nat.add_comm 1 i]
    rw [later, findSome?_cons, walk]
    cases answer (start % size) with
    | some found => rfl
    | none =>
      rw [cyclic _ (Nat.mod_lt _ positive), Nat.mod_add_mod, ih]

section

variable {size : Nat} (cyclic : ∀ position < size, next position = (position + 1) % size)
include cyclic

theorem walk_of_probe {answer : Nat → Option Found} [NeZero size] {fuel start : Nat}
    {found : Found} (enough : size ≤ fuel)
    (answered : (probe size start).findSome? (fun position : Fin size => answer position.val) =
      some found) : walk next answer fuel (start % size) = some found := by
  have positive : 0 < size := Nat.pos_of_ne_zero (NeZero.ne size)
  have seen : ((range size).map fun i => (start + i) % size).findSome? answer =
      some found := by
    rw [← answered, probe, findSome?_map, findSome?_map]
    rfl
  obtain ⟨rest, rfl⟩ := Nat.exists_eq_add_of_le enough
  rw [walk_eq_findSome answer cyclic positive, range_add, map_append,
    findSome?_append, seen]
  rfl

theorem iterate_eq_map (positive : 0 < size) (steps start : Nat) :
    List.iterate next (start % size) steps =
      (List.range steps).map fun i => (start + i) % size := by
  induction steps generalizing start with
  | zero => rfl
  | succ steps ih =>
    rw [iterate, cyclic _ (Nat.mod_lt _ positive), Nat.mod_add_mod, ih,
      List.range_succ_eq_map, List.map_cons, List.map_map]
    refine congrArg₂ cons rfl (map_congr_left fun i _ => ?_)
    change (start + 1 + i) % size = (start + (i + 1)) % size
    rw [Nat.add_assoc, Nat.add_comm 1 i]

end

end Walk

end Probing
