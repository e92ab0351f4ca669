import LRJS.Library.Runs
import Mathlib.Data.List.Pairwise

/-!
# Cursors over cells that change

A cursor walks over numbered cells while keys are put into them and taken out again.  As long as a
new key gets a cell behind all others, and moves of the keys keep their order and the side of the
cursor on which they are, the walk meets the keys in the order in which they were put in, and misses
none that stays.
-/

namespace Cursors

open List Option

universe u

variable {Key : Type u}

structure History (Key : Type u) where
  births : Key → Option Nat
  clock : Nat

namespace History

def empty : History Key :=
  ⟨fun _ => none, 0⟩

variable [DecidableEq Key]

def insert (history : History Key) (key : Key) : History Key :=
  if history.births key = none then
    ⟨Function.update history.births key (some history.clock), history.clock + 1⟩
  else
    history

def remove (history : History Key) (key : Key) : History Key :=
  ⟨Function.update history.births key none, history.clock⟩

def clear (history : History Key) : History Key :=
  ⟨fun _ => none, history.clock⟩

end History

/-! ## Cells -/

structure Cells (Key : Type u) where
  size : Nat
  key : Nat → Option Key

structure InOrder (history : History Key) (cells : Cells Key) : Prop where
  listed : ∀ key birth, history.births key = some birth → ∃ i < cells.size, cells.key i = some key
  born : ∀ i < cells.size, ∀ key, cells.key i = some key → ∃ birth, history.births key = some birth
  sorted : ∀ i j key key' birth birth', i < j → j < cells.size → cells.key i = some key →
    cells.key j = some key' → history.births key = some birth →
    history.births key' = some birth' → birth < birth'
  bounded : ∀ key birth, history.births key = some birth → birth < history.clock

/-- A walk since `start` that has met the keys born at the times `visited`, and whose cursor
stands at `index`. -/
structure Tracks (start history : History Key) (cells : Cells Key) (index : Nat)
    (visited : List Nat) : Prop extends InOrder history cells where
  older : ∀ key birth, start.births key = some birth → birth < history.clock
  ascending : visited.Pairwise (· < ·)
  past : ∀ birth ∈ visited, birth < history.clock
  ahead : ∀ i key birth, index ≤ i → i < cells.size → cells.key i = some key →
    history.births key = some birth → ∀ seen ∈ visited, seen < birth
  pending : ∀ key birth, start.births key = some birth → history.births key = some birth →
    birth ∈ visited ∨ ∃ i, index ≤ i ∧ i < cells.size ∧ cells.key i = some key

structure Moved (index : Nat) (cells cells' : Cells Key) : Prop where
  origin : ∀ i' < cells'.size, ∀ key, cells'.key i' = some key →
    ∃ i < cells.size, cells.key i = some key ∧ (index ≤ i' → index ≤ i)
  target : ∀ i < cells.size, ∀ key, cells.key i = some key →
    ∃ i' < cells'.size, cells'.key i' = some key ∧ (index ≤ i → index ≤ i')
  order : ∀ i j i' j' key key', i' < j' → j' < cells'.size → cells'.key i' = some key →
    cells'.key j' = some key' → i < cells.size → cells.key i = some key → cells.key j = some key' →
    i < j

/-- Keys that are in both and stand in front of `i` stand in front of `i'`. -/
def FrontKept (cells cells' : Cells Key) (i i' : Nat) : Prop :=
  ∀ j < i, ∀ j' < cells'.size, (cells.key j).isSome → cells.key j = cells'.key j' → j' < i'

instance [DecidableEq Key] (cells cells' : Cells Key) (i i' : Nat) :
    Decidable (FrontKept cells cells' i i') := by
  unfold FrontKept
  infer_instance

def SameOrder (index : Nat) (cells cells' : Cells Key) : Prop :=
  ∀ i < cells.size, ∀ i' < cells'.size, (cells.key i).isSome → cells.key i = cells'.key i' →
    (index ≤ i ↔ index ≤ i') ∧ FrontKept cells cells' i i'

set_option synthInstance.maxSize 256 in
instance [DecidableEq Key] (index : Nat) (cells cells' : Cells Key) :
    Decidable (SameOrder index cells cells') := by
  unfold SameOrder
  infer_instance

theorem SameOrder.moved {index : Nat} {cells cells' : Cells Key}
    (same : SameOrder index cells cells')
    (keys : ∀ key, (∃ i < cells.size, cells.key i = some key) ↔
      ∃ i' < cells'.size, cells'.key i' = some key)
    (distinct : ∀ i' < cells'.size, ∀ j' < cells'.size, ∀ key, cells'.key i' = some key →
      cells'.key j' = some key → i' = j') : Moved index cells cells' where
  origin := by
    intro i' bound' key here'
    obtain ⟨i, bound, here⟩ := (keys key).mpr ⟨i', bound', here'⟩
    have related := same i bound i' bound' (by rw [here]; rfl) (here.trans here'.symm)
    exact ⟨i, bound, here, related.1.mpr⟩
  target := by
    intro i bound key here
    obtain ⟨i', bound', here'⟩ := (keys key).mp ⟨i, bound, here⟩
    have related := same i bound i' bound' (by rw [here]; rfl) (here.trans here'.symm)
    exact ⟨i', bound', here', related.1.mp⟩
  order := by
    intro i j i' j' key key' less bound' here' there' bound here there
    have inside := Nat.lt_trans less bound'
    by_contra back
    cases Nat.lt_or_eq_of_le (Nat.not_lt.mp back) with
    | inl before =>
      have related := same i bound i' inside (by rw [here]; rfl) (here.trans here'.symm)
      have early := related.2 j before j' bound' (by rw [there]; rfl) (there.trans there'.symm)
      exact absurd (Nat.lt_trans less early) (Nat.lt_irrefl i')
    | inr equal =>
      rw [equal, here] at there
      cases there
      exact Nat.ne_of_lt less (distinct i' inside j' bound' key here' there')

namespace Tracks

variable {start history : History Key} {cells cells' : Cells Key} {index : Nat}
  {visited : List Nat}

theorem fresh (ordered : InOrder history cells) : Tracks history history cells 0 [] where
  toInOrder := ordered
  older := ordered.bounded
  ascending := List.Pairwise.nil
  past := fun _ impossible => absurd impossible not_mem_nil
  ahead := fun _ _ _ _ _ _ _ _ impossible => absurd impossible not_mem_nil
  pending := by
    intro key birth since _
    obtain ⟨i, bound, here⟩ := ordered.listed key birth since
    exact .inr ⟨i, Nat.zero_le i, bound, here⟩

section

variable (tracks : Tracks start history cells index visited)
include tracks

theorem skip (free : cells.key index = none) : Tracks start history cells (index + 1) visited where
  toInOrder := tracks.toInOrder
  older := tracks.older
  ascending := tracks.ascending
  past := tracks.past
  ahead := fun i key birth beyond => tracks.ahead i key birth (Nat.le_of_succ_le beyond)
  pending := by
    intro key birth since still
    cases tracks.pending key birth since still with
    | inl seen => exact .inl seen
    | inr later =>
      obtain ⟨i, beyond, bound, here⟩ := later
      refine .inr ⟨i, Nat.lt_of_le_of_ne beyond ?_, bound, here⟩
      rintro rfl
      rw [free] at here
      cases here

/-- A step to a filled cell visits its key. -/
theorem visit (bound : index < cells.size) {key : Key} (here : cells.key index = some key) :
    ∃ birth, history.births key = some birth ∧
      Tracks start history cells (index + 1) (visited ++ [birth]) := by
  obtain ⟨birth, since⟩ := tracks.born index bound key here
  have latest := tracks.ahead index key birth (Nat.le_refl index) bound here since
  refine ⟨birth, since, tracks.toInOrder, tracks.older, ?_, ?_, ?_, ?_⟩
  · rw [pairwise_append]
    refine ⟨tracks.ascending, pairwise_singleton _ _, ?_⟩
    intro seen member other single
    rw [mem_singleton.mp single]
    exact latest seen member
  · intro seen member
    cases mem_append.mp member with
    | inl before => exact tracks.past seen before
    | inr now =>
      rw [mem_singleton.mp now]
      exact tracks.bounded key birth since
  · intro i other birth' beyond bound' entry since' seen member
    cases mem_append.mp member with
    | inl before =>
      exact tracks.ahead i other birth' (Nat.le_of_succ_le beyond) bound' entry since' seen
        before
    | inr now =>
      rw [mem_singleton.mp now]
      exact tracks.sorted index i key other birth birth' beyond bound' here entry since since'
  · intro other birth' since' still
    cases tracks.pending other birth' since' still with
    | inl seen => exact .inl (mem_append_left _ seen)
    | inr later =>
      obtain ⟨i, beyond, bound', entry⟩ := later
      cases Nat.lt_or_eq_of_le beyond with
      | inl further => exact .inr ⟨i, further, bound', entry⟩
      | inr same =>
        rw [← same, here] at entry
        cases entry
        rw [since] at still
        cases still
        exact .inl (mem_append_right _ mem_cons_self)

theorem complete (ended : cells.size ≤ index) {key : Key} {birth : Nat}
    (since : start.births key = some birth) (still : history.births key = some birth) :
    birth ∈ visited := by
  cases tracks.pending key birth since still with
  | inl seen => exact seen
  | inr later =>
    obtain ⟨i, beyond, bound, _⟩ := later
    exact absurd (Nat.lt_of_lt_of_le bound (Nat.le_trans ended beyond)) (Nat.lt_irrefl i)

/-! ## Changes -/

/-- Moving cells without changing their order leaves what has been visited. -/
theorem move (moved : Moved index cells cells') : Tracks start history cells' index visited where
  listed := by
    intro key birth since
    obtain ⟨i, bound, here⟩ := tracks.listed key birth since
    obtain ⟨i', bound', here', _⟩ := moved.target i bound key here
    exact ⟨i', bound', here'⟩
  born := by
    intro i' bound' key here'
    obtain ⟨i, bound, here, _⟩ := moved.origin i' bound' key here'
    exact tracks.born i bound key here
  sorted := by
    intro i' j' key key' birth birth' less bound' here' there' since since'
    obtain ⟨i, bound, here, _⟩ := moved.origin i' (Nat.lt_trans less bound') key here'
    obtain ⟨j, bound₂, there, _⟩ := moved.origin j' bound' key' there'
    have before := moved.order i j i' j' key key' less bound' here' there' bound here there
    exact tracks.sorted i j key key' birth birth' before bound₂ here there since since'
  bounded := tracks.bounded
  older := tracks.older
  ascending := tracks.ascending
  past := tracks.past
  ahead := by
    intro i' key birth beyond bound' here' since
    obtain ⟨i, bound, here, side⟩ := moved.origin i' bound' key here'
    exact tracks.ahead i key birth (side beyond) bound here since
  pending := by
    intro key birth since still
    cases tracks.pending key birth since still with
    | inl seen => exact .inl seen
    | inr later =>
      obtain ⟨i, beyond, bound, here⟩ := later
      obtain ⟨i', bound', here', side⟩ := moved.target i bound key here
      exact .inr ⟨i', side beyond, bound', here'⟩

end

end Tracks

/-! ## A new key -/

section Fill

variable {start history : History Key} {cells cells' : Cells Key}
  {index place : Nat} {visited : List Nat} {key : Key}

structure Filled (cells : Cells Key) (place : Nat) (key : Key) (cells' : Cells Key) : Prop where
  bound : place < cells.size
  last : ∀ i < cells.size, (cells.key i).isSome → i < place
  here : cells'.key place = some key
  there : ∀ i, i ≠ place → cells'.key i = cells.key i
  size : cells'.size = cells.size

theorem births_insert [DecidableEq Key] (new : history.births key = none) {other : Key}
    {birth : Nat} : (history.insert key).births other = some birth ↔
      (other = key ∧ birth = history.clock) ∨
        (other ≠ key ∧ history.births other = some birth) := by
  rw [History.insert, if_pos new]
  by_cases same : other = key
  · rw [same]
    simp [eq_comm]
  · simp [same]

theorem clock_insert [DecidableEq Key] (new : history.births key = none) :
    (history.insert key).clock = history.clock + 1 := by
  rw [History.insert, if_pos new]

section

variable (filled : Filled cells place key cells') {i : Nat}
include filled

theorem Filled.old {other : Key}
    (different : other ≠ key) (bound : i < cells'.size) (entry : cells'.key i = some other) :
    i < place ∧ i < cells.size ∧ cells.key i = some other := by
  have elsewhere : i ≠ place := by
    rintro rfl
    rw [filled.here] at entry
    exact different (some.inj entry).symm
  rw [filled.there i elsewhere] at entry
  rw [filled.size] at bound
  exact ⟨filled.last i bound (by rw [entry]; rfl), bound, entry⟩

theorem Filled.kept {other : Key} (bound : i < cells.size) (entry : cells.key i = some other) :
    i < cells'.size ∧ cells'.key i = some other := by
  have before := filled.last i bound (by rw [entry]; rfl)
  rw [filled.size, filled.there i (Nat.ne_of_lt before)]
  exact ⟨bound, entry⟩

theorem Filled.unique (ordered : InOrder history cells)
    (new : history.births key = none) (bound : i < cells'.size)
    (entry : cells'.key i = some key) : i = place := by
  by_contra elsewhere
  rw [filled.there i elsewhere] at entry
  obtain ⟨birth, since⟩ := ordered.born i (filled.size ▸ bound) key entry
  rw [new] at since
  cases since

end

/-- A new key that is filled in keeps the cells in order of birth. -/
theorem InOrder.fill [DecidableEq Key] (ordered : InOrder history cells)
    (new : history.births key = none) (filled : Filled cells place key cells') :
    InOrder (history.insert key) cells' := by
  constructor
  · intro other birth since
    cases (births_insert new).mp since with
    | inl fresh => exact ⟨place, filled.size ▸ filled.bound, fresh.1 ▸ filled.here⟩
    | inr before =>
      obtain ⟨i, bound, entry⟩ := ordered.listed other birth before.2
      exact ⟨i, filled.kept bound entry⟩
  · intro i bound other entry
    by_cases same : other = key
    · exact ⟨history.clock, (births_insert new).mpr (.inl ⟨same, rfl⟩)⟩
    · obtain ⟨_, bound', entry'⟩ := filled.old same bound entry
      obtain ⟨birth, since⟩ := ordered.born i bound' other entry'
      exact ⟨birth, (births_insert new).mpr (.inr ⟨same, since⟩)⟩
  · intro i j first second birth birth' less bound entry entry' since since'
    cases (births_insert new).mp since' with
    | inl fresh' =>
      cases (births_insert new).mp since with
      | inl fresh =>
        rw [fresh.1] at entry
        rw [fresh'.1] at entry'
        have here := filled.unique ordered new (Nat.lt_trans less bound) entry
        have there := filled.unique ordered new bound entry'
        omega
      | inr before =>
        rw [fresh'.2]
        exact ordered.bounded first birth before.2
    | inr before' =>
      obtain ⟨ahead, bound', old'⟩ := filled.old before'.1 bound entry'
      cases (births_insert new).mp since with
      | inl fresh =>
        rw [fresh.1] at entry
        have here := filled.unique ordered new (Nat.lt_trans less bound) entry
        omega
      | inr before =>
        obtain ⟨_, _, old⟩ := filled.old before.1 (Nat.lt_trans less bound) entry
        exact ordered.sorted i j first second birth birth' less bound' old old' before.2
          before'.2
  · intro other birth since
    rw [clock_insert new]
    cases (births_insert new).mp since with
    | inl fresh => exact fresh.2 ▸ Nat.lt_succ_self _
    | inr before => exact Nat.lt_succ_of_lt (ordered.bounded other birth before.2)

/-- A new key that is filled in leaves what has been visited. -/
theorem Tracks.fill [DecidableEq Key] (tracks : Tracks start history cells index visited)
    (new : history.births key = none) (filled : Filled cells place key cells') :
    Tracks start (history.insert key) cells' index visited := by
  refine ⟨tracks.toInOrder.fill new filled, ?_, tracks.ascending, ?_, ?_, ?_⟩
  · intro other birth since
    rw [clock_insert new]
    exact Nat.lt_succ_of_lt (tracks.older other birth since)
  · intro seen member
    rw [clock_insert new]
    exact Nat.lt_succ_of_lt (tracks.past seen member)
  · intro i other birth beyond bound entry since seen member
    cases (births_insert new).mp since with
    | inl fresh =>
      rw [fresh.2]
      exact tracks.past seen member
    | inr before =>
      obtain ⟨_, bound', entry'⟩ := filled.old before.1 bound entry
      exact tracks.ahead i other birth beyond bound' entry' before.2 seen member
  · intro other birth since still
    cases (births_insert new).mp still with
    | inl fresh =>
      have earlier := tracks.older other birth since
      rw [fresh.2] at earlier
      exact absurd earlier (Nat.lt_irrefl _)
    | inr before =>
      cases tracks.pending other birth since before.2 with
      | inl seen => exact .inl seen
      | inr later =>
        obtain ⟨i, beyond, bound, entry⟩ := later
        exact .inr ⟨i, beyond, filled.kept bound entry⟩

end Fill

/-! ## Keys that go -/

section Thin

variable {start history history' : History Key} {cells cells' : Cells Key} {index : Nat}
  {visited : List Nat}

structure Thinned (history history' : History Key) (cells cells' : Cells Key) : Prop where
  births : ∀ key birth, history'.births key = some birth → history.births key = some birth
  clock : history'.clock = history.clock
  size : cells'.size = cells.size
  cells : ∀ i < cells.size, ∀ key, cells'.key i = some key ↔
    cells.key i = some key ∧ (history'.births key).isSome

theorem InOrder.thin (ordered : InOrder history cells)
    (thinned : Thinned history history' cells cells') : InOrder history' cells' := by
  constructor
  · intro key birth since
    obtain ⟨i, bound, here⟩ := ordered.listed key birth (thinned.births key birth since)
    exact ⟨i, thinned.size ▸ bound,
      (thinned.cells i bound key).mpr ⟨here, isSome_of_eq_some since⟩⟩
  · intro i bound key here
    have entry := (thinned.cells i (thinned.size ▸ bound) key).mp here
    exact isSome_iff_exists.mp entry.2
  · intro i j key key' birth birth' less bound here there since since'
    rw [thinned.size] at bound
    exact ordered.sorted i j key key' birth birth' less bound
      ((thinned.cells i (Nat.lt_trans less bound) key).mp here).1
      ((thinned.cells j bound key').mp there).1 (thinned.births key birth since)
      (thinned.births key' birth' since')
  · intro key birth since
    rw [thinned.clock]
    exact ordered.bounded key birth (thinned.births key birth since)

section

variable (tracks : Tracks start history cells index visited)
include tracks

theorem Tracks.thin (thinned : Thinned history history' cells cells') :
    Tracks start history' cells' index visited := by
  refine ⟨tracks.toInOrder.thin thinned, ?_, tracks.ascending, ?_, ?_, ?_⟩
  · rw [thinned.clock]
    exact tracks.older
  · rw [thinned.clock]
    exact tracks.past
  · intro i key birth beyond bound here since
    rw [thinned.size] at bound
    exact tracks.ahead i key birth beyond bound ((thinned.cells i bound key).mp here).1
      (thinned.births key birth since)
  · intro key birth since still
    cases tracks.pending key birth since (thinned.births key birth still) with
    | inl seen => exact .inl seen
    | inr later =>
      obtain ⟨i, beyond, bound, here⟩ := later
      exact .inr ⟨i, beyond, thinned.size ▸ bound,
        (thinned.cells i bound key).mpr ⟨here, isSome_of_eq_some still⟩⟩

theorem Tracks.remove [DecidableEq Key] {key : Key} (size : cells'.size = cells.size)
    (others : ∀ i < cells.size, ∀ other, cells'.key i = some other ↔
      cells.key i = some other ∧ other ≠ key) :
    Tracks start (history.remove key) cells' index visited := by
  have births : ∀ other birth, (history.remove key).births other = some birth ↔
      other ≠ key ∧ history.births other = some birth := by
    intro other birth
    unfold History.remove
    by_cases same : other = key
    · simp [same]
    · simp [same]
  apply tracks.thin ⟨fun other birth since => ((births other birth).mp since).2, rfl, size, ?_⟩
  intro i bound other
  rw [others i bound other]
  apply and_congr_right
  intro here
  obtain ⟨birth, since⟩ := tracks.born i bound other here
  rw [isSome_iff_exists]
  constructor
  · intro different
    exact ⟨birth, (births other birth).mpr ⟨different, since⟩⟩
  · rintro ⟨birth', since'⟩
    exact ((births other birth').mp since').1

theorem Tracks.clear (size : cells'.size = cells.size) (free : ∀ i, cells'.key i = none) :
    Tracks start history.clear cells' index visited := by
  apply tracks.thin
  constructor
  · intro key birth impossible
    cases impossible
  · rfl
  · exact size
  · intro i _ key
    rw [free i]
    exact iff_of_false (by simp) fun both => Bool.noConfusion both.2

end

end Thin

/-! ## Walks -/

universe v w

structure Collection (Object : Type v) (Call : Type w) (Entry Key : Type u) where
  size : Object → Nat
  entry : Object → Nat → Option Entry
  key : Entry → Key
  call : Object → Call → Option Object
  record : Call → History Key → History Key

inductive Step (Call : Type w) where
  | call (now : Call)
  | next

/-- The object, what the calls so far say, the cursor, the entries met with the times of their keys,
and whether the last step has come to the end. -/
structure Walk (Object : Type v) (Entry Key : Type u) where
  object : Object
  history : History Key
  index : Nat
  visited : List (Entry × Option Nat)
  finished : Bool

namespace Walk

variable {Object : Type v} {Entry : Type u}

def new (object : Object) : Walk Object Entry Key :=
  ⟨object, .empty, 0, [], false⟩

def restart (walk : Walk Object Entry Key) : Walk Object Entry Key :=
  { walk with index := 0, visited := [], finished := false }

/-- Entries are met while their keys are in, in the order in which these were put in, and a walk
that has come to the end has met all those that stayed. -/
structure Orderly (start : History Key) (walk : Walk Object Entry Key) : Prop where
  live : ∀ seen ∈ walk.visited, seen.2.isSome
  ascending : (walk.visited.filterMap Prod.snd).Pairwise (· < ·)
  complete : walk.finished = true → ∀ key birth, start.births key = some birth →
    walk.history.births key = some birth → ∃ entry, (entry, some birth) ∈ walk.visited

end Walk

namespace Collection

variable {Object : Type v} {Call : Type w} {Entry : Type u}
  (collection : Collection Object Call Entry Key)

def cells (object : Object) : Cells Key :=
  ⟨collection.size object, fun i => (collection.entry object i).map collection.key⟩

def nextFrom (object : Object) : Nat → Nat → Option Entry × Nat
  | 0, index => (none, index)
  | fuel + 1, index =>
    match collection.entry object index with
    | some entry => (some entry, index + 1)
    | none => nextFrom object fuel (index + 1)

def next (object : Object) (index : Nat) : Option Entry × Nat :=
  collection.nextFrom object (collection.size object - index) index

/-- A call, or a step of the iterator, which goes on from its index also behind the end. -/
def stepBy (next : Object → Nat → Option Entry × Nat) (walk : Walk Object Entry Key) :
    Step Call → Option (Walk Object Entry Key)
  | .call now =>
    (collection.call walk.object now).map fun object =>
      { walk with
        object := object, history := collection.record now walk.history, finished := false }
  | .next =>
    some <|
      match next walk.object walk.index with
      | (some entry, index) =>
        { walk with
          index := index
          visited := walk.visited ++ [(entry, walk.history.births (collection.key entry))]
          finished := false }
      | (none, index) => { walk with index := index, finished := true }

def step (walk : Walk Object Entry Key) : Step Call → Option (Walk Object Entry Key) :=
  collection.stepBy collection.next walk

/-- A loop over the entries, with a callback for each that may make calls, for so many entries
at most. -/
def loop (callback : List Entry → List Call) :
    Nat → Walk Object Entry Key → Option (Walk Object Entry Key)
  | 0, walk => some walk
  | fuel + 1, walk => do
      let met ← collection.step walk .next
      if met.finished then some met
      else
        let later ← Runs.after collection.step met
          ((callback (met.visited.map Prod.fst)).map .call)
        loop callback fuel later

def loopSteps (callback : List Entry → List Call) : Nat → Walk Object Entry Key → List (Step Call)
  | 0, _ => []
  | fuel + 1, walk =>
    match collection.step walk .next with
    | none => [.next]
    | some met =>
      if met.finished then [.next]
      else
        let calls := (callback (met.visited.map Prod.fst)).map .call
        match Runs.after collection.step met calls with
        | none => .next :: calls
        | some later => .next :: (calls ++ loopSteps callback fuel later)

theorem loop_eq_after (callback : List Entry → List Call) (fuel : Nat)
    (walk : Walk Object Entry Key) : collection.loop callback fuel walk =
      Runs.after collection.step walk (collection.loopSteps callback fuel walk) := by
  induction fuel generalizing walk with
  | zero => rfl
  | succ fuel ih =>
    unfold loop loopSteps
    cases met : collection.step walk .next with
    | none => rw [Runs.after_cons, met]; rfl
    | some met' =>
      dsimp only [bind_eq_bind, bind_some]
      split
      · rw [Runs.after_cons, met]
        rfl
      · cases later : Runs.after collection.step met'
          ((callback (met'.visited.map Prod.fst)).map .call) with
        | none =>
          rw [Runs.after_cons, met]
          exact later.symm
        | some later' =>
          dsimp only [bind_some]
          rw [ih, Runs.after_cons, met, bind_some,
            Runs.after_append, later, bind_some]

/-! ## Walks in order -/

/-- What a walk since `start` keeps. -/
def Going (Good : Object → Prop) (start : History Key) (walk : Walk Object Entry Key) : Prop :=
  Good walk.object ∧ ∃ births, walk.visited.map Prod.snd = births.map some ∧
    Tracks start walk.history (collection.cells walk.object) walk.index births

theorem nextFrom_tracks {start history : History Key} {object : Object} (fuel : Nat) {index : Nat}
    {visited : List Nat} (enough : collection.size object ≤ index + fuel)
    (inside : index + fuel ≤ max index (collection.size object))
    (tracks : Tracks start history (collection.cells object) index visited) :
    match collection.nextFrom object fuel index with
    | (some entry, index') => ∃ birth, history.births (collection.key entry) = some birth ∧
        Tracks start history (collection.cells object) index' (visited ++ [birth])
    | (none, index') => collection.size object ≤ index' ∧
        Tracks start history (collection.cells object) index' visited := by
  induction fuel generalizing index with
  | zero => exact ⟨enough, tracks⟩
  | succ fuel ih =>
    unfold nextFrom
    cases here : collection.entry object index with
    | none =>
      have free : (collection.cells object).key index = none :=
        congrArg (Option.map collection.key) here
      exact ih (by omega) (by omega) (tracks.skip free)
    | some entry =>
      have key : (collection.cells object).key index = some (collection.key entry) :=
        congrArg (Option.map collection.key) here
      apply tracks.visit _ key
      change index < collection.size object
      omega

def Meets (condition : Object → Nat → Call → Prop) (walk : Walk Object Entry Key) :
    Step Call → Prop
  | .call now => condition walk.object walk.index now
  | .next => True

instance (condition : Object → Nat → Call → Prop)
    [∀ object index now, Decidable (condition object index now)]
    (walk : Walk Object Entry Key) (step : Step Call) : Decidable (Meets condition walk step) :=
  match step with
  | .call now => inferInstanceAs (Decidable (condition walk.object walk.index now))
  | .next => inferInstanceAs (Decidable True)

def KeepsTrack (Good : Object → Prop) (condition : Object → Nat → Call → Prop) : Prop :=
  ∀ object index now start history births, Good object → condition object index now →
    Tracks start history (collection.cells object) index births →
    ∃ object', collection.call object now = some object' ∧ Good object' ∧
      Tracks start (collection.record now history) (collection.cells object') index births

section Orderly

variable {collection} {Good : Object → Prop} {condition : Object → Nat → Call → Prop}
  {start : History Key} {walk : Walk Object Entry Key}

theorem visited_ascending {births : List Nat} {visited : List (Entry × Option Nat)}
    (same : visited.map Prod.snd = births.map some) :
    (∀ seen ∈ visited, seen.2.isSome) ∧ visited.filterMap Prod.snd = births := by
  constructor
  · intro seen member
    have here := mem_map_of_mem (f := Prod.snd) member
    rw [same] at here
    obtain ⟨birth, _, found⟩ := mem_map.mp here
    rw [← found]
    rfl
  · have whole : visited.filterMap Prod.snd = (visited.map Prod.snd).filterMap id := by
      rw [filterMap_map]
      rfl
    rw [whole, same, filterMap_map]
    exact filterMap_some

def Kept (collection : Collection Object Call Entry Key) (Good : Object → Prop)
    (start : History Key) (walk : Walk Object Entry Key) : Prop :=
  collection.Going Good start walk ∧
    (walk.finished = true → collection.size walk.object ≤ walk.index)

theorem Kept.orderly (kept : collection.Kept Good start walk) : walk.Orderly start := by
  obtain ⟨⟨_, births, same, tracks⟩, ended⟩ := kept
  obtain ⟨live, seen⟩ := visited_ascending same
  refine ⟨live, ?_, ?_⟩
  · rw [seen]
    exact tracks.ascending
  · intro finished key birth since still
    have listed : some birth ∈ walk.visited.map Prod.snd := by
      rw [same]
      exact mem_map_of_mem (tracks.complete (ended finished) since still)
    obtain ⟨pair, here, found⟩ := mem_map.mp listed
    exact ⟨pair.1, found ▸ here⟩

theorem kept_next (kept : collection.Kept Good start walk) :
    ∃ walk', collection.step walk .next = some walk' ∧ collection.Kept Good start walk' := by
  refine ⟨_, rfl, ?_⟩
  obtain ⟨object, history, index, visited, finished⟩ := walk
  obtain ⟨⟨good, births, same, tracks⟩, -⟩ := kept
  have scanned := collection.nextFrom_tracks (collection.size object - index)
    (by dsimp only; omega) (by dsimp only; omega) tracks
  unfold next
  cases found : collection.nextFrom object (collection.size object - index) index with
  | mk entry index' =>
    rw [found] at scanned
    cases entry with
    | some entry =>
      obtain ⟨birth, since, later⟩ := scanned
      refine ⟨⟨good, births ++ [birth], ?_, later⟩, Bool.noConfusion⟩
      rw [map_append, same, map_append, since]
      rfl
    | none => exact ⟨⟨good, births, same, scanned.2⟩, fun _ => scanned.1⟩

section

variable (keeps : collection.KeepsTrack Good condition) (kept : collection.Kept Good start walk)
include keeps kept

theorem kept_call {now : Call} (met : condition walk.object walk.index now) :
    ∃ walk', collection.step walk (.call now) = some walk' ∧
      collection.Kept Good start walk' := by
  obtain ⟨good, births, same, tracks⟩ := kept.1
  obtain ⟨object', answered, good', tracks'⟩ :=
    keeps walk.object walk.index now start walk.history births good met tracks
  have going : collection.Going Good start { walk with
      object := object', history := collection.record now walk.history, finished := false } :=
    ⟨good', births, same, tracks'⟩
  exact ⟨_, congrArg (Option.map _) answered, going, Bool.noConfusion⟩

theorem kept_after {steps : List (Step Call)}
    (met : Runs.Throughout collection.step (Meets condition) walk steps) :
    ∃ reached, Runs.after collection.step walk steps = some reached ∧
      collection.Kept Good start reached := by
  apply Runs.Throughout.arrives_with _ kept met
  intro state event kept met
  cases event with
  | call now => exact kept_call keeps kept met
  | next => exact kept_next kept

end

/-- A walk whose steps meet the condition visits each key once and in order of birth. -/
theorem orderly_of_meets (keeps : collection.KeepsTrack Good condition) {object : Object}
    (good : Good object) (free : ∀ i, collection.entry object i = none) {calls : List Call}
    (met : Runs.Throughout collection.step (Meets condition) (Walk.new object)
      (calls.map .call)) :
    ∃ walk, Runs.after collection.step (Walk.new object) (calls.map .call) = some walk ∧
      ∀ steps, Runs.Throughout collection.step (Meets condition) walk.restart steps →
        ∃ reached, Runs.after collection.step walk.restart steps = some reached ∧
          reached.Orderly walk.history := by
  have ordered : InOrder History.empty (collection.cells object) := by
    constructor
    · intro key birth impossible
      cases impossible
    · intro i _ key here
      have nothing : (collection.cells object).key i = none :=
        congrArg (Option.map collection.key) (free i)
      rw [nothing] at here
      cases here
    · intro i j key key' birth birth' _ _ _ _ impossible
      cases impossible
    · intro key birth impossible
      cases impossible
  have begun : collection.Kept Good History.empty (Walk.new object) :=
    ⟨⟨good, [], rfl, .fresh ordered⟩, Bool.noConfusion⟩
  obtain ⟨walk, arrives, kept⟩ := kept_after keeps begun met
  refine ⟨walk, arrives, fun steps met' => ?_⟩
  obtain ⟨good', _, _, tracks⟩ := kept.1
  have again : collection.Kept Good walk.history walk.restart :=
    ⟨⟨good', [], rfl, .fresh tracks.toInOrder⟩, Bool.noConfusion⟩
  obtain ⟨reached, arrives', kept'⟩ := kept_after keeps again met'
  exact ⟨reached, arrives', kept'.orderly⟩

end Orderly

end Collection

end Cursors
