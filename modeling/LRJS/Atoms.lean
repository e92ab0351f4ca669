import LRJS.Library.Runs
import LRJS.Objects

/-!
# Interning

The atom table of a context (`lr_engine.c`): `lr_new_atom_len` searches the cells of `atom_map` from
the hash of the bytes onwards, doubles the map where it is about 70% full, and fills the first free
cell.  A loop takes `fuel`; `none` means that the fuel did not suffice, or that a cell outside of
the map or of `atom_table` was written.
-/

namespace LRJS

open Function Probing List Option Table

def fnv1a (str : List UInt8) : Nat :=
  (str.foldl (fun (h : UInt32) c => (h ^^^ c.toUInt32) * 16777619) 2166136261).toNat

structure Atom where
  addr : Addr
  len : Nat
  hash : Nat
  str : List UInt8
deriving DecidableEq, Repr

namespace Atom

/-- The string that `lr_string_alloc` makes; `len` is a `uint32_t`. -/
def make (addr : Addr) (str : List UInt8) : Atom :=
  ⟨addr, str.length % 2 ^ 32, fnv1a str, str⟩

/-- `ent->len == len && memcmp(ent->str, str, len) == 0`. -/
def holds (ent : Atom) (str : List UInt8) : Bool :=
  ent.len = str.length && ent.str.take str.length = str

end Atom

/-- `atom_map`, `atom_map_size` and `atom_map_count` of a context, the first `atom_count` entries
of `atom_table`, and `atom_capacity`. -/
structure AtomMap where
  size : Nat
  count : Nat
  cells : Nat → Option Atom
  table : List Atom
  capacity : Nat

/-- A call of `lr_new_atom_len`: the bytes, whether `calloc` succeeds, the block that
`lr_string_alloc` returns, and whether `realloc` succeeds. -/
structure AtomCall where
  str : List UInt8
  calloc : Bool
  alloc : Option Addr
  realloc : Bool
deriving DecidableEq, Repr

namespace AtomMap

def initial : AtomMap :=
  ⟨1024, 0, fun _ => none, [], 64⟩

section Loops

variable (fuel : Nat) (m : AtomMap)

/-- `atom_map_size - 1` as a `uint32_t`. -/
def mask : Nat :=
  (m.size + (2 ^ 32 - 1)) % 2 ^ 32

/-- `(slot + 1) & mask`. -/
def nextSlot (slot : Nat) : Nat :=
  (slot + 1) &&& m.mask

def lookup (str : List UInt8) : Option (Atom ⊕ Nat) :=
  let bi := fnv1a str &&& m.mask
  match (m.cells bi).filter fun cached => cached.holds str with
  | some cached => some (.inl cached)
  | none =>
    walk m.nextSlot (fun slot =>
      match m.cells slot with
      | none => some (.inr slot)
      | some ent => if ent.holds str then some (.inl ent) else none) fuel bi

def emptySlot (h : Nat) : Option Nat :=
  walk m.nextSlot (fun slot => if (m.cells slot).isNone then some slot else none) fuel
    (h &&& m.mask)

def move (old : AtomMap) (i : Nat) : Option AtomMap :=
  match old.cells i with
  | none => some m
  | some at_ => do
      let s2 ← m.emptySlot fuel at_.hash
      some { m with cells := Function.update m.cells s2 (some at_) }

def grow : Option AtomMap :=
  let new_size := m.size * 2 % 2 ^ 32
  if new_size = 0 then
    none
  else
    (List.range m.size).foldlM (fun new i => new.move fuel m i)
      { m with size := new_size, cells := fun _ => none }

/-- `atom_capacity` when the new atom is written behind the others; the result of `realloc` is
not checked. -/
def reserve (call : AtomCall) : Option Nat :=
  if m.capacity ≤ m.table.length then
    let capacity := m.capacity * 2 % 2 ^ 32
    if call.realloc ∧ m.table.length < capacity then some capacity else none
  else
    some m.capacity

def create (slot : Nat) (call : AtomCall) : Option (AtomMap × Option Atom) :=
  match call.alloc with
  | none => some (m, none)
  | some addr =>
    let atom := Atom.make addr call.str
    (m.reserve call).map fun capacity =>
      ({ m with
          table := m.table ++ [atom]
          cells := Function.update m.cells slot (some atom)
          count := m.count + 1
          capacity }, some atom)

def lr_new_atom_len (call : AtomCall) : Option (AtomMap × Option Atom) := do
  match ← m.lookup fuel call.str with
  | .inl ent => some (m, some ent)
  | .inr slot =>
    if m.size * 7 % 2 ^ 32 / 10 ≤ m.count then
      if call.calloc then do
        let grown ← m.grow fuel
        let slot ← grown.emptySlot fuel (fnv1a call.str)
        grown.create slot call
      else
        some (m, none)
    else
      m.create slot call

end Loops

end AtomMap

structure AtomSession where
  map : AtomMap
  answered : List (List UInt8 × Atom)

namespace AtomSession

def initial : AtomSession :=
  ⟨.initial, []⟩

def next (fuel : Nat) (session : AtomSession) (call : AtomCall) : Option AtomSession :=
  (session.map.lr_new_atom_len fuel call).map fun (map, answer) =>
    ⟨map, session.answered ++ (answer.map fun atom => (call.str, atom)).toList⟩

end AtomSession

theorem Atom.holds_make {addr : Addr} {key str : List UInt8} (short : key.length < 2 ^ 32) :
    (Atom.make addr key).holds str = decide (key = str) := by
  unfold holds make
  rw [Nat.mod_eq_of_lt short, Bool.eq_iff_iff]
  simp only [Bool.and_eq_true, decide_eq_true_eq]
  constructor
  · rintro ⟨length, taken⟩
    rwa [← length, take_length] at taken
  · rintro rfl
    exact ⟨rfl, take_length⟩

namespace AtomMap

variable {m : AtomMap} {k : Nat}

/-- The cells of a map of size `2 ^ k`, as a table from byte strings to atoms. -/
structure Models (m : AtomMap) (k : Nat) (table : Table fnv1a Atom (2 ^ k)) : Prop where
  size : m.size = 2 ^ k
  cells : ∀ position : Fin (2 ^ k),
    table.cells position = (m.cells position).map fun atom => (atom.str, atom)
  made : ∀ position < 2 ^ k, ∀ atom, m.cells position = some atom →
    atom = .make atom.addr atom.str ∧ atom.str.length < 2 ^ 32

section Models

variable {table : Table fnv1a Atom (2 ^ k)}

section

variable (size : m.size = 2 ^ k) (small : k ≤ 31)
include size small

theorem mask_eq : m.mask = 2 ^ k - 1 := by
  have bound : 2 ^ k ≤ 2 ^ 31 := Nat.pow_le_pow_right (by decide) small
  have positive : 0 < 2 ^ k := Nat.two_pow_pos k
  unfold mask
  omega

theorem and_mask (h : Nat) : h &&& m.mask = h % 2 ^ k := by
  rw [mask_eq size small, Nat.and_two_pow_sub_one_eq_mod]

theorem nextSlot_eq (slot : Nat) : m.nextSlot slot = (slot + 1) % 2 ^ k := by
  rw [nextSlot, and_mask size small]

end

def seen (m : AtomMap) (str : List UInt8) (slot : Nat) : Option (Atom ⊕ Nat) :=
  match m.cells slot with
  | none => some (.inr slot)
  | some ent => if ent.holds str then some (.inl ent) else none

theorem seen_eq (models : m.Models k table) (str : List UInt8) (position : Fin (2 ^ k)) :
    m.seen str position = (table.look str position).map (Sum.map id Fin.val) := by
  have cells := models.cells position
  unfold seen
  cases entry : m.cells position with
  | none =>
    rw [look_of_none str (by rw [cells, entry]; rfl)]
    rfl
  | some atom =>
    obtain ⟨made, short⟩ := models.made position position.isLt atom entry
    have holds : atom.holds str = decide (atom.str = str) := by
      rw [made]
      exact Atom.holds_make short
    rw [look_of_some str (by rw [cells, entry]; rfl)]
    by_cases same : atom.str = str
    · simp [holds, same]
    · simp [holds, same]

theorem lookup_eq_walk (str : List UInt8) (fuel : Nat) :
    m.lookup (fuel + 1) str =
      walk m.nextSlot (m.seen str) (fuel + 1) (fnv1a str &&& m.mask) := by
  unfold lookup
  dsimp only
  cases cached : (m.cells (fnv1a str &&& m.mask)).filter fun cached => cached.holds str with
  | none =>
    rfl
  | some atom =>
    obtain ⟨entry, holds⟩ := filter_eq_some_iff.mp cached
    have here : m.seen str (fnv1a str &&& m.mask) = some (.inl atom) := by
      rw [seen, entry]
      exact if_pos holds
    have ends : walk m.nextSlot (m.seen str) (fuel + 1) (fnv1a str &&& m.mask) =
        some (.inl atom) := by
      rw [walk, here]
    exact ends.symm

section

variable (models : m.Models k table)
include models

theorem lookup_eq (small : k ≤ 31) {fuel : Nat}
    (enough : 2 ^ k ≤ fuel) {str : List UInt8} {found : Atom ⊕ Fin (2 ^ k)}
    (seeks : table.seek str = some found) : m.lookup fuel str = some (found.map id Fin.val) := by
  have positive : 0 < 2 ^ k := Nat.two_pow_pos k
  obtain ⟨fuel, rfl⟩ : ∃ rest, fuel = rest + 1 := ⟨fuel - 1, by omega⟩
  rw [lookup_eq_walk, and_mask models.size small]
  refine walk_of_probe (fun position _ => nextSlot_eq models.size small position) enough ?_
  have same : (fun position : Fin (2 ^ k) => m.seen str position.val) =
      Option.map (Sum.map id Fin.val) ∘ table.look str :=
    funext (seen_eq models str)
  rw [same, ← map_findSome?]
  exact congrArg (Option.map (Sum.map id Fin.val)) seeks

theorem emptySlot_eq (small : k ≤ 31) {fuel : Nat}
    (enough : 2 ^ k ≤ fuel) {key : List UInt8} {position : Fin (2 ^ k)}
    (isFree : table.free key = some position) :
    m.emptySlot fuel (fnv1a key) = some position.val := by
  unfold emptySlot
  rw [and_mask models.size small]
  refine walk_of_probe (fun position _ => nextSlot_eq models.size small position) enough ?_
  have emptyIff (place : Fin (2 ^ k)) : (m.cells place).isNone = (table.cells place).isNone := by
    rw [models.cells, isNone_map]
  obtain ⟨wasFree, before, after, split, taken⟩ := free_split isFree
  rw [findSome?_eq_some_iff]
  refine ⟨before, position, after, split, ?_, fun place member => ?_⟩
  · rw [emptyIff, wasFree]
    rfl
  · rw [emptyIff, isNone_eq_false_iff.mpr (taken place member)]
    rfl

theorem Models.insert (addr : Addr) {key : List UInt8}
    (short : key.length < 2 ^ 32) {position : Fin (2 ^ k)}
    (isFree : table.free key = some position) (m' : AtomMap) (size : m'.size = m.size)
    (cells : m'.cells = Function.update m.cells position (some (.make addr key))) :
    m'.Models k (table.insert key (.make addr key)) where
  size := size.trans models.size
  cells := by
    intro place
    rw [cells_insert isFree, cells]
    by_cases here : place = position
    · rw [here, update_self, update_self]
      rfl
    · have elsewhere : place.val ≠ position.val := fun same => here (Fin.ext same)
      rw [update_of_ne here, update_of_ne elsewhere, models.cells]
  made := by
    intro place inside atom entry
    rw [cells] at entry
    by_cases here : place = position.val
    · rw [here, update_self] at entry
      cases entry
      exact ⟨rfl, short⟩
    · rw [update_of_ne here] at entry
      exact models.made place inside atom entry

/-- Moving the cells one by one fills the doubled map with the same atoms. -/
theorem grow_cells {k' : Nat} (small : k' ≤ 31) {fuel : Nat}
    (enough : 2 ^ k' ≤ fuel) (unique : table.Unique) (room : table.count < 2 ^ k')
    (new : AtomMap) (size : new.size = 2 ^ k') (empty : new.cells = fun _ => none)
    (positions : List (Fin (2 ^ k))) (nodup : positions.Nodup) :
    ∃ cells, (positions.map Fin.val).foldlM (fun new i => new.move fuel m i) new =
        some { new with cells } ∧
      AtomMap.Models { new with cells } k'
        (table.refill (.empty fnv1a Atom (2 ^ k')) positions) := by
  induction positions using reverseRecOn with
  | nil =>
    refine ⟨new.cells, rfl, size, fun position => ?_, fun position _ atom entry => ?_⟩
    · rw [empty]
      rfl
    · rw [empty] at entry
      cases entry
  | append_singleton before position ih =>
    have distinct := nodup_append.mp nodup
    obtain ⟨cells, moved, soFar⟩ := ih distinct.1
    have count := (table.refill_spec unique room.le before distinct.1).1
    rw [map_append, foldlM_append, moved, bind_eq_bind, bind_some]
    have cells_ := models.cells position
    cases entry : m.cells position with
    | none =>
      rw [refill_append_none (by rw [cells_, entry]; rfl)]
      refine ⟨cells, ?_, soFar⟩
      simp [move, entry]
    | some atom =>
      rw [refill_append_some (by rw [cells_, entry]; rfl)]
      obtain ⟨made, short⟩ := models.made position position.isLt atom entry
      have below := table.taken_le_count distinct.1
      obtain ⟨s2, isFree⟩ := isSome_iff_exists.mp
        (free_isSome atom.str (count.trans_lt (below.trans_lt room)))
      have hash : atom.hash = fnv1a atom.str := by
        rw [made]
        rfl
      have placed := emptySlot_eq soFar small enough isFree
      refine ⟨update cells s2 (some atom), ?_, ?_⟩
      · simp [move, entry, hash, placed]
      · have inserted := soFar.insert atom.addr short isFree
          { new with cells := update cells s2 (some atom) } rfl (by rw [← made])
        rw [← made] at inserted
        exact inserted

end

/-- The atoms in the map are those of the table, each with bytes and an address of its own,
less than 7 of 10 cells are taken, and the table has no more than `atom_capacity` entries. -/
structure Interns (m : AtomMap) (k : Nat) (table : Table fnv1a Atom (2 ^ k)) : Prop where
  models : m.Models k table
  large : 10 ≤ k
  small : k ≤ 31
  unique : table.Unique
  counted : m.count = table.count
  room : 10 * m.count ≤ 7 * m.size
  listed : ∀ str atom, table.find str = some atom ↔ atom ∈ m.table ∧ atom.str = str
  strs : (m.table.map Atom.str).Nodup
  addrs : (m.table.map Atom.addr).Nodup
  atoms : m.table.length = m.count
  capacity : m.table.length ≤ m.capacity ∧ 0 < m.capacity

namespace Interns

variable {fuel : Nat}

theorem free_room (interns : m.Interns k table) : table.count < 2 ^ k := by
  have positive : 0 < 2 ^ k := Nat.two_pow_pos k
  have room := interns.room
  rw [interns.counted, interns.models.size] at room
  omega

section

variable (interns : m.Interns k table) (enough : 2 ^ 31 ≤ fuel)
include interns enough

theorem fuel_enough : 2 ^ k ≤ fuel :=
  (Nat.pow_le_pow_right (by decide) interns.small).trans enough

theorem lookup_found {str : List UInt8} {atom : Atom} (found : table.find str = some atom) :
    m.lookup fuel str = some (.inl atom) := by
  have seeks : table.seek str = some (.inl atom) := by
    rw [seek_eq, found]
  exact lookup_eq interns.models interns.small (interns.fuel_enough enough) seeks

theorem lookup_absent {str : List UInt8} (absent : table.find str = none) :
    ∃ slot, table.free str = some slot ∧ m.lookup fuel str = some (.inr slot.val) := by
  obtain ⟨slot, isFree⟩ :=
    isSome_iff_exists.mp (free_isSome str interns.free_room)
  have seeks : table.seek str = some (.inr slot) := by
    rw [seek_eq, absent, isFree]
    rfl
  exact ⟨slot, isFree,
    lookup_eq interns.models interns.small (interns.fuel_enough enough) seeks⟩

theorem lookup_isSome (str : List UInt8) : (m.lookup fuel str).isSome := by
  cases found : table.find str with
  | some atom =>
    rw [interns.lookup_found enough found]
    rfl
  | none =>
    obtain ⟨slot, -, ends⟩ := interns.lookup_absent enough found
    rw [ends]
    rfl

end

/-- A capacity that is doubled is the number of atoms, less than 7 of 10 of `2 ^ 31`. -/
theorem reserve (interns : m.Interns k table) {call : AtomCall}
    (realloc : m.capacity ≤ m.table.length → call.realloc = true) :
    ∃ capacity, m.reserve call = some capacity ∧ m.table.length < capacity := by
  unfold AtomMap.reserve
  by_cases full : m.capacity ≤ m.table.length
  · have bound : 2 ^ k ≤ 2 ^ 31 := Nat.pow_le_pow_right (by decide) interns.small
    have room := interns.room
    rw [← interns.atoms, interns.models.size] at room
    have capacity := interns.capacity
    have longer : m.table.length < m.capacity * 2 % 2 ^ 32 := by
      omega
    rw [if_pos full]
    exact ⟨_, if_pos ⟨realloc full, longer⟩, longer⟩
  · rw [if_neg full]
    exact ⟨_, rfl, Nat.lt_of_not_le full⟩

/-- A new atom is put into the free cell and behind the table. -/
theorem create (interns : m.Interns k table) {call : AtomCall} {addr : Addr} {capacity : Nat}
    (reserved : m.reserve call = some capacity) (behind : m.table.length < capacity)
    (alloc : call.alloc = some addr) (short : call.str.length < 2 ^ 32)
    (fresh : addr ∉ m.table.map Atom.addr) (absent : table.find call.str = none)
    (next : 10 * (m.count + 1) ≤ 7 * m.size) {slot : Fin (2 ^ k)}
    (isFree : table.free call.str = some slot) :
    ∃ map, m.create slot call = some (map, some (.make addr call.str)) ∧
      map.table = m.table ++ [.make addr call.str] ∧
      map.Interns k (table.insert call.str (.make addr call.str)) := by
  refine ⟨_, by rw [AtomMap.create, alloc, reserved]; rfl, rfl, ?_⟩
  have newString : call.str ∉ m.table.map Atom.str := by
    intro member
    obtain ⟨atom, listed, same⟩ := mem_map.mp member
    have found := (interns.listed call.str atom).mpr ⟨listed, same⟩
    rw [absent] at found
    cases found
  constructor
  · exact interns.models.insert addr short isFree _ rfl rfl
  · exact interns.large
  · exact interns.small
  · exact unique_insert interns.unique absent _
  · exact (congrArg (· + 1) interns.counted).trans
      (count_insert call.str _ interns.free_room).symm
  · exact next
  · intro str atom
    rw [mem_append, mem_singleton]
    by_cases same : str = call.str
    · subst same
      rw [find_insert_self call.str _ interns.free_room, absent]
      constructor
      · intro found
        cases found
        exact ⟨Or.inr rfl, rfl⟩
      · rintro ⟨listed | rfl, bytes⟩
        · exact absurd (mem_map.mpr ⟨atom, listed, bytes⟩) newString
        · rfl
    · rw [find_insert_of_ne table _ same, interns.listed]
      constructor
      · exact fun ⟨listed, bytes⟩ => ⟨Or.inl listed, bytes⟩
      · rintro ⟨listed | rfl, bytes⟩
        · exact ⟨listed, bytes⟩
        · exact absurd bytes.symm same
  · have longer := interns.strs.concat newString
    rw [concat_eq_append] at longer
    rw [map_append]
    exact longer
  · have longer := interns.addrs.concat fresh
    rw [concat_eq_append] at longer
    rw [map_append]
    exact longer
  · rw [length_append, interns.atoms]
    rfl
  · rw [length_append]
    exact ⟨behind, Nat.zero_lt_of_lt behind⟩

/-- A doubled map has the same atoms, and less than 7 of 20 of its cells are taken. -/
theorem grow (interns : m.Interns k table) (enough : 2 ^ 31 ≤ fuel) (below : m.size < 2 ^ 31) :
    ∃ cells, m.grow fuel = some { m with size := 2 ^ (k + 1), cells } ∧
      AtomMap.Interns { m with size := 2 ^ (k + 1), cells } (k + 1)
        (table.rehash (2 ^ (k + 1))) := by
  have size := interns.models.size
  have double : 2 ^ (k + 1) = m.size * 2 := by
    rw [size, Nat.pow_succ]
  have small : k + 1 ≤ 31 := by
    rw [size] at below
    exact (Nat.pow_lt_pow_iff_right (by decide)).mp below
  have larger : table.count ≤ 2 ^ (k + 1) := by
    have room := interns.free_room
    omega
  have new_size : m.size * 2 % 2 ^ 32 = 2 ^ (k + 1) := by
    rw [double]
    exact Nat.mod_eq_of_lt (by omega)
  obtain ⟨cells, moved, models⟩ := grow_cells interns.models small
    ((Nat.pow_le_pow_right (by decide) small).trans enough) interns.unique
    (by have room := interns.free_room; omega)
    { m with size := 2 ^ (k + 1), cells := fun _ => none } rfl rfl _ (nodup_finRange _)
  refine ⟨cells, ?_, models, ?_, small, unique_rehash interns.unique larger,
    ?_, ?_, ?_, interns.strs, interns.addrs, interns.atoms, interns.capacity⟩
  · have positive : 2 ^ (k + 1) ≠ 0 := (Nat.two_pow_pos _).ne'
    rw [AtomMap.grow, new_size, if_neg positive, size, ← map_coe_finRange_eq_range]
    exact moved
  · exact interns.large.trans (Nat.le_succ k)
  · exact interns.counted.trans (count_rehash interns.unique larger).symm
  · have room := interns.room
    change 10 * m.count ≤ 7 * 2 ^ (k + 1)
    omega
  · intro str atom
    rw [find_rehash interns.unique larger]
    exact interns.listed str atom

end Interns

end Models

def Loaded (m : AtomMap) : Prop :=
  m.size * 7 % 2 ^ 32 / 10 ≤ m.count

theorem not_loaded (size : m.size = 1024) (count : m.count < 716) : ¬ m.Loaded := by
  unfold Loaded
  omega

def Makes (m : AtomMap) (call : AtomCall) : Prop :=
  ∀ addr, call.alloc = some addr →
    call.str.length < 2 ^ 32 ∧ addr ∉ m.table.map Atom.addr ∧
      (m.capacity ≤ m.table.length → call.realloc = true)

/-- The bytes have an atom, or the new one fits: a doubled map has less than `2 ^ 31` cells, the
length is a `uint32_t`, the block is not that of another atom, and a full table is reallocated. -/
def Fits (m : AtomMap) (call : AtomCall) : Prop :=
  call.str ∈ m.table.map Atom.str ∨
    (m.Loaded → call.calloc = true → m.size < 2 ^ 31) ∧
    m.Makes call

structure Answers (m : AtomMap) (str : List UInt8) (result : AtomMap × Option Atom) : Prop where
  interns : ∃ k table, result.1.Interns k table
  kept : ∀ atom ∈ m.table, atom ∈ result.1.table
  bytes : ∀ atom, result.2 = some atom → atom ∈ result.1.table ∧ atom.str = str

section Calls

variable {table : Table fnv1a Atom (2 ^ k)} {call : AtomCall}

theorem create_answers (interns : m.Interns k table) (makes : m.Makes call)
    (absent : table.find call.str = none) (next : 10 * (m.count + 1) ≤ 7 * m.size)
    {slot : Fin (2 ^ k)} (isFree : table.free call.str = some slot) :
    ∃ result, m.create slot call = some result ∧ m.Answers call.str result := by
  cases alloc : call.alloc with
  | none =>
    have refused : m.create slot call = some (m, none) := by
      rw [create, alloc]
    exact ⟨_, refused, ⟨k, table, interns⟩, fun _ member => member, nofun⟩
  | some addr =>
    obtain ⟨short, fresh, realloc⟩ := makes addr alloc
    obtain ⟨capacity, reserved, behind⟩ := interns.reserve realloc
    obtain ⟨map, created, atoms, interned⟩ :=
      interns.create reserved behind alloc short fresh absent next isFree
    refine ⟨_, created, ⟨k, _, interned⟩, fun atom member => ?_, ?_⟩
    · rw [atoms]
      exact mem_append_left _ member
    · rintro atom ⟨⟩
      rw [atoms]
      exact ⟨mem_append_right _ (mem_singleton_self _), rfl⟩

theorem lr_new_atom_len_below {fuel slot : Nat} (ends : m.lookup fuel call.str = some (.inr slot))
    (below : ¬ m.Loaded) : m.lr_new_atom_len fuel call = m.create slot call := by
  rw [lr_new_atom_len, ends, bind_eq_bind, bind_some]
  exact if_neg below

/-- A call that fits ends, keeps all atoms, and answers with one that has its bytes. -/
theorem lr_new_atom_len_answers (interns : m.Interns k table) {fuel : Nat}
    (enough : 2 ^ 31 ≤ fuel) (fits : m.Fits call) :
    ∃ result, m.lr_new_atom_len fuel call = some result ∧ m.Answers call.str result := by
  cases found : table.find call.str with
  | some ent =>
    refine ⟨(m, some ent), ?_, ⟨k, table, interns⟩, fun _ member => member, ?_⟩
    · rw [lr_new_atom_len, interns.lookup_found enough found]
      rfl
    · rintro atom ⟨⟩
      exact (interns.listed call.str ent).mp found
  | none =>
    have new : call.str ∉ m.table.map Atom.str := by
      intro member
      obtain ⟨atom, listed, bytes⟩ := mem_map.mp member
      rw [(interns.listed call.str atom).mpr ⟨listed, bytes⟩] at found
      cases found
    obtain ⟨below, makes⟩ := fits.resolve_left new
    obtain ⟨slot, isFree, ends⟩ := interns.lookup_absent enough found
    have large := Nat.pow_le_pow_right (n := 2) (by decide) interns.large
    have size := interns.models.size
    have room := interns.room
    by_cases loaded : m.Loaded
    · rw [lr_new_atom_len, ends, bind_eq_bind, bind_some]
      have guard : m.size * 7 % 2 ^ 32 / 10 ≤ m.count := loaded
      dsimp only
      rw [if_pos guard]
      cases calloc : call.calloc with
      | false =>
        exact ⟨_, rfl, ⟨k, table, interns⟩, fun _ member => member, nofun⟩
      | true =>
        obtain ⟨cells, grown, larger⟩ := interns.grow enough (below loaded calloc)
        have same : table.count ≤ 2 ^ (k + 1) := by
          have capacity := interns.free_room
          omega
        have absent : (table.rehash (2 ^ (k + 1))).find call.str = none := by
          rw [find_rehash interns.unique same, found]
        obtain ⟨slot', isFree', -⟩ := larger.lookup_absent enough absent
        have placed := emptySlot_eq larger.models larger.small
          (larger.fuel_enough enough) isFree'
        have next : 10 * (m.count + 1) ≤ 7 * 2 ^ (k + 1) := by
          omega
        obtain ⟨result, created, answers⟩ :=
          create_answers larger makes absent next isFree'
        refine ⟨result, ?_, answers.interns, answers.kept, answers.bytes⟩
        simp [grown, placed, created]
    · have next : 10 * (m.count + 1) ≤ 7 * m.size := by
        have wrapped := Nat.mod_le (m.size * 7) (2 ^ 32)
        unfold Loaded at loaded
        omega
      obtain ⟨result, created, answers⟩ := create_answers interns makes found next isFree
      exact ⟨result, (lr_new_atom_len_below ends loaded).trans created, answers⟩

end Calls

theorem initial_interns : initial.Interns 10 (.empty fnv1a Atom (2 ^ 10)) where
  models := ⟨rfl, fun _ => rfl, nofun⟩
  large := by decide
  small := by decide
  unique := nofun
  counted := rfl
  room := by decide
  listed := by
    intro str atom
    rw [find_empty]
    constructor
    · nofun
    · rintro ⟨⟨⟩, -⟩
  strs := nodup_nil
  addrs := nodup_nil
  atoms := rfl
  capacity := by decide

end AtomMap

namespace AtomSession

structure Sound (session : AtomSession) : Prop where
  interns : ∃ k table, session.map.Interns k table
  bytes : ∀ str atom, (str, atom) ∈ session.answered → atom ∈ session.map.table ∧ atom.str = str

/-- Each byte string has at most one atom, two calls got the same atom exactly if their bytes are
equal, every atom is found, and every search ends. -/
structure Interned (fuel : Nat) (session : AtomSession) : Prop where
  cells : ∀ i < session.map.size, ∀ j < session.map.size, ∀ first second,
    session.map.cells i = some first → session.map.cells j = some second →
      first.str = second.str → i = j
  table : (session.map.table.map Atom.str).Nodup
  same : ∀ str atom str' atom', (str, atom) ∈ session.answered →
    (str', atom') ∈ session.answered → (atom.addr = atom'.addr ↔ str = str')
  found : ∀ atom ∈ session.map.table,
    session.map.lookup fuel atom.str = some (.inl atom)
  again : ∀ str atom, (str, atom) ∈ session.answered →
    session.map.lookup fuel str = some (.inl atom)
  ends : ∀ str, (session.map.lookup fuel str).isSome

def Fits (session : AtomSession) (call : AtomCall) : Prop :=
  session.map.Fits call

theorem initial_sound : initial.Sound :=
  ⟨⟨10, _, AtomMap.initial_interns⟩, nofun⟩

theorem next_sound {fuel : Nat} (enough : 2 ^ 31 ≤ fuel) (session : AtomSession)
    (call : AtomCall) (sound : session.Sound) (fits : session.Fits call) :
    ∃ later, next fuel session call = some later ∧ later.Sound := by
  obtain ⟨k, table, interns⟩ := sound.interns
  obtain ⟨⟨map, answer⟩, ends, answers⟩ := AtomMap.lr_new_atom_len_answers interns enough fits
  refine ⟨_, by rw [next, ends]; rfl, answers.interns, fun str atom member => ?_⟩
  rcases mem_append.mp member with before | now
  · obtain ⟨listed, bytes⟩ := sound.bytes str atom before
    exact ⟨answers.kept atom listed, bytes⟩
  · cases answer with
    | none => cases now
    | some made =>
      cases mem_singleton.mp now
      exact answers.bytes _ rfl

theorem Sound.interned {fuel : Nat} (enough : 2 ^ 31 ≤ fuel) {session : AtomSession}
    (sound : session.Sound) : session.Interned fuel := by
  obtain ⟨k, table, interns⟩ := sound.interns
  have found (atom : Atom) (member : atom ∈ session.map.table) :
      session.map.lookup fuel atom.str = some (.inl atom) :=
    interns.lookup_found enough ((interns.listed atom.str atom).mpr ⟨member, rfl⟩)
  constructor
  · intro i iBound j jBound first second atI atJ bytes
    rw [interns.models.size] at iBound jBound
    have cellI := interns.models.cells ⟨i, iBound⟩
    have cellJ := interns.models.cells ⟨j, jBound⟩
    rw [atI] at cellI
    rw [atJ, map_some, ← bytes] at cellJ
    exact congrArg Fin.val (interns.unique _ _ first.str first second cellI cellJ)
  · exact interns.strs
  · intro str atom str' atom' answered answered'
    obtain ⟨listed, rfl⟩ := sound.bytes str atom answered
    obtain ⟨listed', rfl⟩ := sound.bytes str' atom' answered'
    constructor
    · intro address
      rw [inj_on_of_nodup_map interns.addrs listed listed' address]
    · intro bytes
      rw [inj_on_of_nodup_map interns.strs listed listed' bytes]
  · exact found
  · intro str atom answered
    obtain ⟨listed, rfl⟩ := sound.bytes str atom answered
    exact found atom listed
  · exact interns.lookup_isSome enough

/-- A run of calls that fit ends, and its byte strings are interned. -/
theorem atoms_interned {fuel : Nat} (enough : 2 ^ 31 ≤ fuel) {calls : List AtomCall}
    (fit : Runs.Throughout (next fuel) Fits initial calls) :
    ∃ session, Runs.after (next fuel) initial calls = some session ∧ session.Interned fuel := by
  obtain ⟨session, arrives, sound⟩ :=
    Runs.Throughout.arrives_with (next_sound enough) initial_sound fit
  exact ⟨session, arrives, sound.interned enough⟩

/-- Two strings of one byte. -/
theorem atoms_interned_two : ∃ session, Runs.after (next (2 ^ 31)) initial
    [⟨[97], true, some 1, true⟩, ⟨[98], true, some 2, true⟩] = some session ∧
      session.Interned (2 ^ 31) := by
  refine atoms_interned (by decide) ⟨.inr ⟨fun _ _ => by decide, ?_⟩, fun first taken =>
    ⟨.inr ⟨fun _ _ => ?_, ?_⟩, fun _ _ => trivial⟩⟩
  · rintro addr ⟨⟩
    exact ⟨by decide, by decide, fun _ => rfl⟩
  all_goals
    have tables : (next (2 ^ 31) initial ⟨[97], true, some 1, true⟩).map (fun session =>
        (session.map.size, session.map.table.map Atom.addr)) = some (1024, [1]) := by
      decide +kernel
    rw [taken, map_some, some.injEq, Prod.mk.injEq] at tables
  · rw [tables.1]
    decide
  · rintro addr ⟨⟩
    rw [tables.2]
    exact ⟨by decide, by decide, fun _ => rfl⟩

theorem holds_long (addr : Addr) {str : List UInt8} (long : 2 ^ 32 ≤ str.length) :
    (Atom.make addr str).holds str = false := by
  have truncated : str.length % 2 ^ 32 ≠ str.length := by
    omega
  rw [Atom.holds, Atom.make]
  rw [decide_eq_false truncated]
  rfl

/-- A string whose length is truncated is not found again. -/
theorem long_again {str : List UInt8} (long : 2 ^ 32 ≤ str.length) (fuel : Nat) :
    ∃ map, Runs.after (next (fuel + 2)) initial
        [⟨str, true, some 1, true⟩, ⟨str, true, some 2, true⟩] =
      some ⟨map, [(str, .make 1 str), (str, .make 2 str)]⟩ := by
  have home : fnv1a str &&& AtomMap.initial.mask < 1024 := by
    rw [AtomMap.and_mask (k := 10) rfl (by decide)]
    exact Nat.mod_lt _ (by decide)
  generalize bi : fnv1a str &&& AtomMap.initial.mask = home_ at home
  let map : AtomMap :=
    ⟨1024, 1, update (fun _ => none) home_ (some (.make 1 str)), [.make 1 str], 64⟩
  have firstLookup : AtomMap.initial.lookup (fuel + 2) str = some (.inr home_) := by
    rw [AtomMap.lookup_eq_walk, bi]
    rfl
  have later : (map.nextSlot home_) ≠ home_ := by
    rw [AtomMap.nextSlot_eq (k := 10) rfl (by decide)]
    omega
  have secondLookup : map.lookup (fuel + 2) str = some (.inr (map.nextSlot home_)) := by
    have taken : map.seen str home_ = none := by
      simp [AtomMap.seen, map, holds_long 1 long]
    have empty : map.seen str (map.nextSlot home_) = some (.inr (map.nextSlot home_)) := by
      have none_ : map.cells (map.nextSlot home_) = none := by
        change update (fun _ => none) home_ _ _ = none
        rw [update_of_ne later]
      rw [AtomMap.seen, none_]
    have sameHome : fnv1a str &&& map.mask = home_ := bi
    rw [AtomMap.lookup_eq_walk, sameHome, Probing.walk, taken]
    rw [Probing.walk, empty]
  have first : next (fuel + 2) initial ⟨str, true, some 1, true⟩ =
      some ⟨map, [(str, .make 1 str)]⟩ := by
    rw [next, initial, AtomMap.lr_new_atom_len_below firstLookup
      (AtomMap.not_loaded rfl (by decide))]
    rfl
  let split : AtomMap :=
    { map with
      table := [.make 1 str, .make 2 str]
      cells := update map.cells (map.nextSlot home_) (some (.make 2 str))
      count := 2 }
  have second : next (fuel + 2) ⟨map, [(str, .make 1 str)]⟩ ⟨str, true, some 2, true⟩ =
      some ⟨split, [(str, .make 1 str), (str, .make 2 str)]⟩ := by
    rw [next, AtomMap.lr_new_atom_len_below secondLookup
      (AtomMap.not_loaded rfl (show 1 < 716 by decide))]
    rfl
  refine ⟨split, ?_⟩
  rw [Runs.after, foldlM_cons, first, bind_eq_bind, bind_some,
    foldlM_cons, second]
  rfl

/-- A string of 4 GiB has two atoms. -/
theorem long_string_split :
    ∃ map, Runs.after (next (2 ^ 31)) initial
        [⟨.replicate (2 ^ 32) 0, true, some 1, true⟩,
          ⟨.replicate (2 ^ 32) 0, true, some 2, true⟩] =
      some ⟨map, [(.replicate (2 ^ 32) 0, .make 1 (.replicate (2 ^ 32) 0)),
        (.replicate (2 ^ 32) 0, .make 2 (.replicate (2 ^ 32) 0))]⟩ ∧
      ¬ Interned (2 ^ 31) ⟨map, [(.replicate (2 ^ 32) 0, .make 1 (.replicate (2 ^ 32) 0)),
        (.replicate (2 ^ 32) 0, .make 2 (.replicate (2 ^ 32) 0))]⟩ := by
  have long : 2 ^ 32 ≤ (replicate (2 ^ 32) (0 : UInt8)).length := by
    rw [length_replicate]
  generalize replicate (2 ^ 32) (0 : UInt8) = str at long
  obtain ⟨map, arrives⟩ := long_again long (2 ^ 31 - 2)
  refine ⟨map, arrives, fun interned => ?_⟩
  have same := (interned.same str (.make 1 str) str (.make 2 str) (by simp) (by simp)).mpr rfl
  cases same

end AtomSession

end LRJS
