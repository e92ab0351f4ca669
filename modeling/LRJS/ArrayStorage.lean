import LRJS.Library.Runs
import LRJS.Objects

/-!
# Array storage

The dense storage of one array (`lr_engine.c`, `lr_bytecode_exec.c`, `lr_builtins_core.c`): indexed
writes by name, by number and by `BC_SET_ELEM`, writes of `length`, `push` and `pop`.

A write by name also makes a property with the decimal name of the index; the prototypes have none.
A doubling loop takes `fuel`; `none` means that it did not suffice.
-/

namespace LRJS

open Function

/-- `LRArrayData`, and the values of the properties that are named like an index. -/
structure ArrayStorage where
  length : Nat
  capacity : Nat
  elements : Nat → LRValue
  named : Nat → Option LRValue

/-- A value, with the outcome of the `calloc` of the write, of the write by name which follows a
failure, and of an `LRProperty`. -/
structure ElementWrite where
  val : LRValue
  calloc : Bool
  again : Bool
  prop : Bool
deriving DecidableEq, Repr

/-- `while (cap < bound) cap = cap ? cap * 2 : restart`. -/
def doubled (restart : Nat) : Nat → Nat → Nat → Option Nat
  | 0, _, _ => none
  | fuel + 1, cap, bound =>
    if cap < bound then
      doubled restart fuel (if cap = 0 then restart else cap * 2 % 2 ^ 32) bound
    else
      some cap

namespace ArrayStorage

/-- `lr_new_array`. -/
def initial : ArrayStorage :=
  ⟨0, 8, fun _ => .undefined, fun _ => none⟩

section Operations

variable (a : ArrayStorage) (fuel : Nat)

def regrown (new_cap : Nat) (memory : Nat → LRValue) : ArrayStorage :=
  { a with
    capacity := new_cap
    elements := fun i => if i < a.capacity then a.elements i else memory i }

/-- `elements[idx] = val; if (idx >= length) length = idx + 1`. -/
def store (idx : Nat) (val : LRValue) : ArrayStorage :=
  { a with
    length := if a.length ≤ idx then (idx + 1) % 2 ^ 32 else a.length
    elements := Function.update a.elements idx val }

/-- The property with the name of the index, at the end of `lr_set_property`. -/
def record (idx : Nat) (val : LRValue) (calloc : Bool) : ArrayStorage :=
  if (a.named idx).isSome || calloc then
    { a with named := Function.update a.named idx (some val) }
  else
    a

/-- `lr_set_property` with the name of an index. -/
def lr_set_property (idx : Nat) (val : LRValue) (calloc prop : Bool) : Option ArrayStorage :=
  if a.capacity ≤ idx then do
    let new_cap ← doubled 0 fuel (if a.capacity = 0 then 8 else a.capacity) (idx + 1)
    if calloc then
      some (((a.regrown new_cap fun _ => .undefined).store idx val).record idx val prop)
    else
      some (a.record idx val prop)
  else
    some ((a.store idx val).record idx val prop)

def lr_set_property_uint32 (idx : Nat) (write : ElementWrite) : Option ArrayStorage :=
  if a.capacity ≤ idx then do
    let new_cap ← doubled 0 fuel a.capacity (idx + 1)
    if write.calloc then
      some ((a.regrown new_cap fun _ => .undefined).store idx write.val)
    else
      a.lr_set_property fuel idx write.val write.again write.prop
  else
    some (a.store idx write.val)

/-- `lr_set_property` with the name `length`, after `lr_to_int32`. -/
def set_length (new_len : Int) : ArrayStorage :=
  if 0 ≤ new_len then { a with length := new_len.toNat } else a

/-- `set_array_length`; the new cells are cleared. -/
def set_array_length (len : Int) (realloc : Bool) : Option ArrayStorage :=
  let unsigned := (len % 2 ^ 32).toNat
  if a.capacity < unsigned then do
    let new_cap ← doubled 4 fuel a.capacity unsigned
    let grown := if realloc then a.regrown new_cap fun _ => .undefined else a
    some (set_length { grown with length := unsigned } len)
  else
    some (set_length { a with length := unsigned } len)

/-- `BC_SET_ELEM` with an int32 key that is not negative.  `realloc` gives what is in the new cells;
without memory the VM aborts. -/
def set_elem (k : Nat) (write : ElementWrite) (realloc : Option (Nat → LRValue)) :
    Option ArrayStorage :=
  if k < a.length then
    some { a with elements := Function.update a.elements k write.val }
  else if k = a.length then
    if a.capacity ≤ k then do
      let ncap ← doubled 0 fuel (if a.capacity = 0 then 4 else a.capacity * 2 % 2 ^ 32) (k + 1)
      match realloc with
      | some memory => some ((a.regrown ncap memory).store k write.val)
      | none => some a
    else
      some (a.store k write.val)
  else
    a.lr_set_property_uint32 fuel k write

/-- `lr_get_property` with the name of an index, and `lr_get_property_uint32`. -/
def get_property (idx : Nat) : LRValue :=
  if idx < a.length ∧ a.elements idx ≠ .undefined then
    a.elements idx
  else
    (a.named idx).getD .undefined

/-- `BC_GET_ELEM` with an int32 key that is not negative. -/
def get_elem (k : Nat) : LRValue :=
  if k < a.length then a.elements k else a.get_property k

end Operations

end ArrayStorage

/-! ## The array that is meant -/

structure ArraySpec where
  length : Nat
  values : Nat → LRValue

namespace ArraySpec

def initial : ArraySpec :=
  ⟨0, fun _ => .undefined⟩

def write (spec : ArraySpec) (idx : Nat) (val : LRValue) : ArraySpec :=
  ⟨max spec.length (idx + 1), Function.update spec.values idx val⟩

def resize (spec : ArraySpec) (len : Nat) : ArraySpec :=
  ⟨len, fun i => if i < len then spec.values i else .undefined⟩

end ArraySpec

structure ArraySession where
  storage : ArrayStorage
  spec : ArraySpec

inductive ArrayCall where
  | set_property (idx : Nat) (write : ElementWrite)
  | set_uint32 (idx : Nat) (write : ElementWrite)
  | set_elem (k : Nat) (write : ElementWrite) (realloc : Option (Nat → LRValue))
  | set_length (new_len : Int)
  | set_array_length (len : Int) (realloc : Bool)
  | push (args : List ElementWrite) (realloc : Bool)
  | pop (realloc : Bool)

namespace ArraySession

def initial : ArraySession :=
  ⟨.initial, .initial⟩

section Steps

variable (fuel : Nat) (session : ArraySession)

def accept (accepted : Bool) (storage : ArrayStorage) (idx : Nat) (val : LRValue) : ArraySession :=
  ⟨storage, if accepted then session.spec.write idx val else session.spec⟩

def room (idx : Nat) (calloc : Bool) : Bool :=
  idx < session.storage.capacity || calloc

def set_property (idx : Nat) (write : ElementWrite) : Option ArraySession := do
  let storage ← session.storage.lr_set_property fuel idx write.val write.calloc write.prop
  some (session.accept (session.room idx write.calloc) storage idx write.val)

def set_uint32 (idx : Nat) (write : ElementWrite) : Option ArraySession := do
  let storage ← session.storage.lr_set_property_uint32 fuel idx write
  some (session.accept (session.room idx (write.calloc || write.again)) storage idx write.val)

def set_elem (k : Nat) (write : ElementWrite) (realloc : Option (Nat → LRValue)) :
    Option ArraySession := do
  let storage ← session.storage.set_elem fuel k write realloc
  let calloc :=
    if k = session.storage.length then realloc.isSome else write.calloc || write.again
  some (session.accept (k < session.storage.length || session.room k calloc) storage k write.val)

def set_length (new_len : Int) : ArraySession :=
  ⟨session.storage.set_length new_len,
    if 0 ≤ new_len then session.spec.resize new_len.toNat else session.spec⟩

def set_array_length (len : Int) (realloc : Bool) : Option ArraySession := do
  let storage ← session.storage.set_array_length fuel len realloc
  some ⟨storage, session.spec.resize (len % 2 ^ 32).toNat⟩

/-- The length as `get_array_length` gives it, an `int32_t`. -/
def get_array_length : Int :=
  (session.storage.length : Int).bmod (2 ^ 32)

/-- The writes of `push`. -/
def pushed (args : List ElementWrite) : List (Nat × ElementWrite) :=
  args.mapIdx fun i write => (((session.get_array_length + i) % 2 ^ 32).toNat, write)

def pushOne (write : Nat × ElementWrite) : Option ArraySession :=
  session.set_uint32 fuel write.1 write.2

def js_array_proto_push (args : List ElementWrite) (realloc : Bool) : Option ArraySession := do
  let written ← Runs.after (pushOne fuel) session (session.pushed args)
  written.set_array_length fuel ((session.get_array_length + args.length).bmod (2 ^ 32)) realloc

def js_array_proto_pop (realloc : Bool) : Option ArraySession :=
  if session.get_array_length = 0 then
    some session
  else
    session.set_array_length fuel ((session.get_array_length - 1).bmod (2 ^ 32)) realloc

def next : ArrayCall → Option ArraySession
  | .set_property idx write => session.set_property fuel idx write
  | .set_uint32 idx write => session.set_uint32 fuel idx write
  | .set_elem k write realloc => session.set_elem fuel k write realloc
  | .set_length new_len => some (session.set_length new_len)
  | .set_array_length len realloc => session.set_array_length fuel len realloc
  | .push args realloc => session.js_array_proto_push fuel args realloc
  | .pop realloc => session.js_array_proto_pop fuel realloc

end Steps

/-! ## The invariant -/

/-- The length is within the capacity, the cells behind it are undefined, and every read of an index
gives the value that is meant. -/
structure Faithful (session : ArraySession) : Prop where
  capacity : session.storage.length ≤ session.storage.capacity
  cleared : ∀ i, session.storage.length ≤ i → i < session.storage.capacity →
    session.storage.elements i = .undefined
  length : session.storage.length = session.spec.length
  property : ∀ i, session.storage.get_property i = session.spec.values i
  elem : ∀ i, session.storage.get_elem i = session.spec.values i
  beyond : ∀ i, session.spec.length ≤ i → session.spec.values i = .undefined

structure Refines (a : ArrayStorage) (spec : ArraySpec) : Prop where
  positive : 0 < a.capacity
  unsigned : a.capacity < 2 ^ 32
  capacity : a.length ≤ a.capacity
  cleared : ∀ i, a.length ≤ i → i < a.capacity → a.elements i = .undefined
  length : a.length = spec.length
  values : ∀ i, i < a.length → a.elements i = spec.values i
  beyond : ∀ i, a.length ≤ i → spec.values i = .undefined
  named : ∀ i, spec.values i = .undefined → (a.named i).getD .undefined = .undefined

theorem Refines.faithful {session : ArraySession} (refines : Refines session.storage session.spec) :
    session.Faithful := by
  have property (i : Nat) : session.storage.get_property i = session.spec.values i := by
    unfold ArrayStorage.get_property
    split
    · next inside =>
        exact refines.values i inside.1
    · next outside =>
        have absent : session.spec.values i = .undefined := by
          rcases Nat.lt_or_ge i session.storage.length with below | above
          · rw [← refines.values i below]
            by_contra defined
            exact outside ⟨below, defined⟩
          · exact refines.beyond i above
        rw [refines.named i absent, absent]
  refine ⟨refines.capacity, refines.cleared, refines.length, property, fun i => ?_, ?_⟩
  · unfold ArrayStorage.get_elem
    split
    · next inside =>
        exact refines.values i inside
    · exact property i
  · intro i above
    exact refines.beyond i (refines.length ▸ above)

/-! ## Growing and writing -/

theorem doubled_ends (restart : Nat) {bound : Nat} (small : bound ≤ 2 ^ 31) (steps : Nat)
    {cap : Nat} (positive : 0 < cap) (unsigned : cap < 2 ^ 32) (reaches : bound ≤ cap * 2 ^ steps)
    {fuel : Nat} (enough : steps < fuel) :
    ∃ new_cap, doubled restart fuel cap bound = some new_cap ∧ bound ≤ new_cap ∧
      cap ≤ new_cap ∧ new_cap < 2 ^ 32 := by
  obtain ⟨fuel, rfl⟩ : ∃ rest, fuel = rest + 1 := ⟨fuel - 1, by omega⟩
  induction steps generalizing cap fuel with
  | zero =>
    have done : ¬ cap < bound := by
      omega
    exact ⟨cap, by rw [doubled, if_neg done], by omega, Nat.le_refl cap, unsigned⟩
  | succ steps ih =>
    rw [doubled]
    by_cases below : cap < bound
    · rw [if_pos below, if_neg positive.ne', Nat.mod_eq_of_lt (by omega)]
      obtain ⟨fuel, rfl⟩ : ∃ rest, fuel = rest + 1 := ⟨fuel - 1, by omega⟩
      have later : bound ≤ cap * 2 * 2 ^ steps := by
        rw [Nat.mul_assoc, Nat.mul_comm 2]
        exact reaches
      obtain ⟨new_cap, ends, large, grown, fits⟩ := ih
        (by omega) (by omega) later fuel (by omega)
      exact ⟨new_cap, ends, large, by omega, fits⟩
    · rw [if_neg below]
      exact ⟨cap, rfl, by omega, Nat.le_refl cap, unsigned⟩

theorem doubled_fuel (restart bound cap : Nat) {fuel : Nat} (small : bound ≤ 2 ^ 31)
    (positive : 0 < cap) (unsigned : cap < 2 ^ 32) (enough : 32 ≤ fuel) :
    ∃ new_cap, doubled restart fuel cap bound = some new_cap ∧ bound ≤ new_cap ∧
      cap ≤ new_cap ∧ new_cap < 2 ^ 32 := by
  refine doubled_ends restart small 31 positive unsigned ?_ enough
  omega

namespace Refines

variable {a : ArrayStorage} {spec : ArraySpec}

section

variable (refines : Refines a spec)
include refines

theorem regrown {new_cap : Nat} (larger : a.capacity ≤ new_cap)
    (unsigned : new_cap < 2 ^ 32) (memory : Nat → LRValue)
    (cleared : ∀ i, a.capacity ≤ i → i < new_cap → memory i = .undefined) :
    Refines (a.regrown new_cap memory) spec := by
  have inside (i : Nat) (below : i < a.length) :
      (a.regrown new_cap memory).elements i = a.elements i :=
    if_pos (below.trans_le refines.capacity)
  refine ⟨refines.positive.trans_le larger, unsigned, refines.capacity.trans larger, ?_,
    refines.length, ?_, refines.beyond, refines.named⟩
  · intro i above below
    rcases Nat.lt_or_ge i a.capacity with old | new
    · exact (if_pos old).trans (refines.cleared i above old)
    · exact (if_neg (Nat.not_lt.mpr new)).trans (cleared i new below)
  · intro i below
    rw [inside i below]
    exact refines.values i below

/-- A write to a cell refines the write to the array, if no named property shows through. -/
theorem write {idx : Nat} (inside : idx < a.capacity) {val : LRValue} {named : Nat → Option LRValue}
    (others : ∀ i, i ≠ idx → named i = a.named i)
    (hidden : val = .undefined → (named idx).getD .undefined = .undefined) :
    Refines { a.store idx val with named } (spec.write idx val) := by
  have unsigned := refines.unsigned
  have length : (a.store idx val).length = max a.length (idx + 1) := by
    unfold ArrayStorage.store
    dsimp only
    split <;> omega
  have capacity := refines.capacity
  refine ⟨refines.positive, unsigned, ?_, ?_, ?_, ?_, ?_, ?_⟩
  · change (a.store idx val).length ≤ a.capacity
    omega
  · intro i above below
    change (a.store idx val).length ≤ i at above
    have other : i ≠ idx := by
      omega
    change update a.elements idx val i = _
    rw [update_of_ne other]
    exact refines.cleared i (by omega) below
  · change (a.store idx val).length = max spec.length (idx + 1)
    rw [length, refines.length]
  · intro i below
    change i < (a.store idx val).length at below
    change update a.elements idx val i = update spec.values idx val i
    by_cases here : i = idx
    · rw [here, update_self, update_self]
    · rw [update_of_ne here, update_of_ne here]
      rcases Nat.lt_or_ge i a.length with old | new
      · exact refines.values i old
      · rw [refines.cleared i new (by omega), refines.beyond i new]
  · intro i above
    change (a.store idx val).length ≤ i at above
    have other : i ≠ idx := by
      omega
    change update spec.values idx val i = _
    rw [update_of_ne other]
    exact refines.beyond i (by omega)
  · intro i absent
    change update spec.values idx val i = _ at absent
    by_cases here : i = idx
    · rw [here, update_self] at absent
      rw [here]
      exact hidden absent
    · rw [update_of_ne here] at absent
      change (named i).getD _ = _
      rw [others i here]
      exact refines.named i absent

theorem store {idx : Nat} (inside : idx < a.capacity) (val : LRValue)
    (hidden : val = .undefined → (a.named idx).getD .undefined = .undefined) :
    Refines (a.store idx val) (spec.write idx val) :=
  refines.write inside (fun _ _ => rfl) hidden

theorem append (full : a.capacity ≤ a.length) {new_cap : Nat}
    (large : a.length < new_cap) (unsigned : new_cap < 2 ^ 32) {memory : Nat → LRValue}
    (cleared : ∀ i, a.length < i → memory i = .undefined) (val : LRValue) :
    Refines ((a.regrown new_cap memory).store a.length val) (spec.write a.length val) := by
  have capacity := refines.capacity
  have overwritten : (a.regrown new_cap memory).store a.length val =
      (a.regrown new_cap (update memory a.length .undefined)).store a.length val := by
    unfold ArrayStorage.store ArrayStorage.regrown
    congr 1
    funext i
    by_cases here : i = a.length
    · rw [here, update_self, update_self]
    · rw [update_of_ne here, update_of_ne here]
      dsimp only
      rw [update_of_ne here]
  have grown := refines.regrown (by omega) unsigned (update memory a.length .undefined)
    fun i above _ => by
      by_cases here : i = a.length
      · rw [here, update_self]
      · rw [update_of_ne here]
        exact cleared i (by omega)
  rw [overwritten]
  exact grown.store large val fun _ =>
    refines.named a.length (refines.beyond a.length (Nat.le_refl _))

/-- A new length refines the shorter or longer array, if the cells behind it are empty. -/
theorem resize {len : Nat} (fits : len ≤ a.capacity)
    (empty : ∀ i, len ≤ i → i < a.length → a.elements i = .undefined) :
    Refines { a with length := len } (spec.resize len) := by
  have same (i : Nat) : (spec.resize len).values i = spec.values i := by
    change (if i < len then spec.values i else _) = _
    split
    · rfl
    · next above =>
        rcases Nat.lt_or_ge i a.length with old | new
        · rw [← refines.values i old, empty i (Nat.le_of_not_lt above) old]
        · exact (refines.beyond i new).symm
  refine ⟨refines.positive, refines.unsigned, fits, ?_, rfl, ?_, ?_, ?_⟩
  · intro i above below
    rcases Nat.lt_or_ge i a.length with old | new
    · exact empty i above old
    · exact refines.cleared i new below
  · intro i below
    rw [same]
    rcases Nat.lt_or_ge i a.length with old | new
    · exact refines.values i old
    · have inside : i < a.capacity := Nat.lt_of_lt_of_le below fits
      exact (refines.cleared i new inside).trans (refines.beyond i new).symm
  · intro i above
    exact if_neg (Nat.not_lt.mpr above)
  · intro i absent
    rw [same] at absent
    exact refines.named i absent

theorem rename {named : Nat → Option LRValue}
    (hidden : ∀ i, spec.values i = .undefined → (named i).getD .undefined = .undefined) :
    Refines { a with named } spec :=
  ⟨refines.positive, refines.unsigned, refines.capacity, refines.cleared, refines.length,
    refines.values, refines.beyond, hidden⟩

end

end Refines

/-! ## Calls that fit -/

end ArraySession

namespace ArrayStorage

variable (a : ArrayStorage)

/-- No name shows where `val` is stored. -/
def Hides (idx : Nat) (val : LRValue) : Prop :=
  val = .undefined → (a.named idx).getD .undefined = .undefined

/-- The index is inside of the buffer; or it is below `2 ^ 31`, and a larger buffer can be
had or there is nothing to store. -/
def NameFits (idx : Nat) (val : LRValue) (calloc : Bool) : Prop :=
  a.capacity ≤ idx → idx < 2 ^ 31 ∧ (calloc = true ∨ val = .undefined)

def NumberFits (idx : Nat) (write : ElementWrite) : Prop :=
  a.NameFits idx write.val (write.calloc || write.again) ∧ a.Hides idx write.val

def ElemFits (k : Nat) (write : ElementWrite) (realloc : Option (Nat → LRValue)) : Prop :=
  if k < a.length then
    a.Hides k write.val
  else if k = a.length then
    a.capacity ≤ k → k < 2 ^ 31 ∧
      ∀ memory, realloc = some memory → ∀ i, k < i → memory i = .undefined
  else
    a.NumberFits k write

/-- The elements from `len` onwards are undefined. -/
def EmptyFrom (len : Nat) : Prop :=
  ∀ i, len ≤ i → i < a.length → a.elements i = .undefined

def LengthFits (new_len : Int) : Prop :=
  0 ≤ new_len → new_len.toNat ≤ a.capacity ∧ a.EmptyFrom new_len.toNat

/-- A length above the capacity is at most `2 ^ 31`, and a larger buffer can be had. -/
def ArrayLengthFits (len : Int) (realloc : Bool) : Prop :=
  (a.capacity < (len % 2 ^ 32).toNat → (len % 2 ^ 32).toNat ≤ 2 ^ 31 ∧ realloc = true) ∧
    a.EmptyFrom (len % 2 ^ 32).toNat

end ArrayStorage

namespace ArraySession

section Steps

variable {fuel : Nat} {session : ArraySession}

abbrev Sound (session : ArraySession) : Prop :=
  Refines session.storage session.spec

theorem Refines.store_record {a : ArrayStorage} {spec : ArraySpec} (refines : Refines a spec)
    {idx : Nat} (inside : idx < a.capacity) (val : LRValue) (calloc : Bool) :
    Refines ((a.store idx val).record idx val calloc) (spec.write idx val) := by
  unfold ArrayStorage.record
  split
  · refine refines.write inside (fun i other => update_of_ne other _ _) ?_
    rintro rfl
    rw [update_self]
    rfl
  · next absent =>
      refine refines.write inside (fun _ _ => rfl) fun _ => ?_
      have none_ : (a.store idx val).named idx = none := by
        simp only [Bool.or_eq_true, not_or] at absent
        simpa using absent.1
      exact (congrArg (Option.getD · .undefined) none_).trans rfl

theorem Refines.record_undefined {a : ArrayStorage} {spec : ArraySpec} (refines : Refines a spec)
    (idx : Nat) (calloc : Bool) : Refines (a.record idx .undefined calloc) spec := by
  unfold ArrayStorage.record
  split
  · refine refines.rename fun i absent => ?_
    by_cases here : i = idx
    · rw [here, update_self]
      rfl
    · rw [update_of_ne here]
      exact refines.named i absent
  · exact refines

theorem set_property_sound (enough : 32 ≤ fuel) (sound : session.Sound) {idx : Nat}
    (write : ElementWrite) (fits : session.storage.NameFits idx write.val write.calloc) :
    ∃ later, session.set_property fuel idx write = some later ∧ later.Sound := by
  unfold set_property ArrayStorage.lr_set_property
  by_cases grows : session.storage.capacity ≤ idx
  · obtain ⟨below, calloc⟩ := fits grows
    obtain ⟨new_cap, ends, large, larger, unsigned⟩ := doubled_fuel 0 (idx + 1) _
      (by omega) sound.positive sound.unsigned enough
    have outside : ¬ idx < session.storage.capacity := Nat.not_lt.mpr grows
    rw [if_pos grows, if_neg sound.positive.ne', ends]
    cases given : write.calloc with
    | true =>
      have grown := sound.regrown larger unsigned (fun _ => .undefined)
        fun _ _ _ => rfl
      refine ⟨_, rfl, ?_⟩
      simpa [accept, room, Sound] using grown.store_record (by exact large) write.val write.prop
    | false =>
      have nothing : write.val = .undefined := calloc.resolve_left (by simp [given])
      refine ⟨_, rfl, ?_⟩
      simpa [accept, room, Sound, outside, nothing] using
        Refines.record_undefined sound idx write.prop
  · have inside : idx < session.storage.capacity := Nat.lt_of_not_le grows
    rw [if_neg grows]
    refine ⟨_, rfl, ?_⟩
    simpa [accept, room, Sound, inside] using
      Refines.store_record sound inside write.val write.prop

/-- A write by number that fits keeps the storage sound. -/
theorem set_uint32_sound (enough : 32 ≤ fuel) (sound : session.Sound) {idx : Nat}
    {write : ElementWrite} (fits : session.storage.NumberFits idx write) :
    ∃ later, session.set_uint32 fuel idx write = some later ∧ later.Sound := by
  obtain ⟨name, hides⟩ := fits
  unfold set_uint32 ArrayStorage.lr_set_property_uint32
  by_cases grows : session.storage.capacity ≤ idx
  · obtain ⟨below, calloc⟩ := name grows
    obtain ⟨new_cap, ends, large, larger, unsigned⟩ := doubled_fuel 0 (idx + 1) _
      (by omega) sound.positive sound.unsigned enough
    rw [if_pos grows, ends]
    cases given : write.calloc with
    | true =>
      have grown := sound.regrown larger unsigned (fun _ => .undefined)
        fun _ _ _ => rfl
      have written := grown.store (by exact large) write.val hides
      refine ⟨_, rfl, ?_⟩
      simpa [accept, room, Sound, given] using written
    | false =>
      -- the write by name decides
      have again : session.storage.NameFits idx write.val write.again :=
        fun _ => ⟨below, by simpa [given] using calloc⟩
      obtain ⟨later, written, kept⟩ := set_property_sound enough sound
        { write with calloc := write.again } again
      refine ⟨later, ?_, kept⟩
      unfold set_property at written
      simpa [given] using written
  · have inside : idx < session.storage.capacity := Nat.lt_of_not_le grows
    have written := Refines.store sound inside write.val hides
    rw [if_neg grows]
    refine ⟨_, rfl, ?_⟩
    simpa [accept, room, Sound, inside] using written

theorem pushOne_sound (enough : 32 ≤ fuel) (session : ArraySession)
    (write : Nat × ElementWrite) (sound : session.Sound)
    (fits : session.storage.NumberFits write.1 write.2) :
    ∃ later, session.pushOne fuel write = some later ∧ later.Sound :=
  set_uint32_sound enough sound fits

/-- A write of `BC_SET_ELEM` that fits keeps the storage sound. -/
theorem set_elem_sound (enough : 32 ≤ fuel) (sound : session.Sound) {k : Nat}
    {write : ElementWrite} {realloc : Option (Nat → LRValue)}
    (fits : session.storage.ElemFits k write realloc) :
    ∃ later, session.set_elem fuel k write realloc = some later ∧ later.Sound := by
  unfold set_elem ArrayStorage.set_elem
  unfold ArrayStorage.ElemFits at fits
  by_cases below : k < session.storage.length
  · rw [if_pos below] at fits ⊢
    have inside := below.trans_le sound.capacity
    have written := Refines.store sound inside write.val fits
    refine ⟨_, rfl, ?_⟩
    have same : session.storage.store k write.val = { session.storage with
        elements := update session.storage.elements k write.val } := by
      unfold ArrayStorage.store
      rw [if_neg (Nat.not_le.mpr below)]
    simpa [accept, room, Sound, below, ← same] using written
  · rw [if_neg below] at fits ⊢
    by_cases append : k = session.storage.length
    · rw [if_pos append] at fits ⊢
      subst append
      by_cases grows : session.storage.capacity ≤ session.storage.length
      · obtain ⟨small, cleared⟩ := fits grows
        have positive := sound.positive
        obtain ⟨ncap, ends, large, larger, unsigned⟩ := doubled_fuel 0
          (session.storage.length + 1) (session.storage.capacity * 2)
          (by omega) (by omega) (by omega) enough
        rw [if_pos grows, if_neg positive.ne', Nat.mod_eq_of_lt (by omega), ends]
        cases given : realloc with
        | none =>
          have outside : ¬ session.storage.length < session.storage.capacity :=
            Nat.not_lt.mpr grows
          refine ⟨_, rfl, ?_⟩
          simpa [accept, room, Sound, outside] using sound
        | some memory =>
          have written := Refines.append sound grows large unsigned (cleared memory given)
            write.val
          refine ⟨_, rfl, ?_⟩
          simpa [accept, room, Sound] using written
      · have inside := Nat.lt_of_not_le grows
        have behind := Nat.le_refl session.storage.length
        have written := Refines.store sound inside write.val
          fun _ => sound.named _ (sound.beyond _ behind)
        rw [if_neg grows]
        refine ⟨_, rfl, ?_⟩
        simpa [accept, room, Sound, inside] using written
    · rw [if_neg append] at fits ⊢
      obtain ⟨later, written, kept⟩ := set_uint32_sound enough sound fits
      refine ⟨later, ?_, kept⟩
      unfold set_uint32 at written
      simpa [below, append] using written

theorem set_length_sound (sound : session.Sound) {new_len : Int}
    (fits : session.storage.LengthFits new_len) : (session.set_length new_len).Sound := by
  unfold set_length ArrayStorage.set_length
  by_cases taken : 0 ≤ new_len
  · obtain ⟨capacity, empty⟩ := fits taken
    simpa [taken, Sound] using Refines.resize sound capacity empty
  · simpa [taken, Sound] using sound

/-- A new length that fits keeps the storage sound. -/
theorem set_array_length_sound (enough : 32 ≤ fuel) (sound : session.Sound) {len : Int}
    (inRange : -2 ^ 31 ≤ len ∧ len < 2 ^ 31) {realloc : Bool}
    (fits : session.storage.ArrayLengthFits len realloc) :
    ∃ later, session.set_array_length fuel len realloc = some later ∧ later.Sound := by
  obtain ⟨larger, empty⟩ := fits
  -- the property `length` is written after the storage was changed
  have again (a : ArrayStorage) :
      ({ a with length := (len % 2 ^ 32).toNat } : ArrayStorage).set_length len =
        { a with length := (len % 2 ^ 32).toNat } := by
    unfold ArrayStorage.set_length
    split
    · have same : len % 2 ^ 32 = len := by
        omega
      rw [same]
    · rfl
  unfold set_array_length ArrayStorage.set_array_length
  by_cases grows : session.storage.capacity < (len % 2 ^ 32).toNat
  · obtain ⟨small, given⟩ := larger grows
    obtain ⟨new_cap, ends, large, above, unsigned⟩ := doubled_fuel 4 _ _ small sound.positive
      sound.unsigned enough
    have grown := sound.regrown above unsigned (fun _ => .undefined) fun _ _ _ => rfl
    have resized := Refines.resize grown (by exact large) fun i behind below => by
      have inside := Nat.lt_of_lt_of_le below sound.capacity
      exact (if_pos inside).trans (empty i behind below)
    rw [if_pos grows, ends, given]
    simp only [Option.bind_eq_bind, Option.bind_some, if_true, again]
    exact ⟨_, rfl, resized⟩
  · rw [if_neg grows, again]
    exact ⟨_, rfl, Refines.resize sound (Nat.le_of_not_lt grows) empty⟩

end Steps

/-! ## Runs -/

def Fits (fuel : Nat) (session : ArraySession) : ArrayCall → Prop
  | .set_property idx write => session.storage.NameFits idx write.val write.calloc
  | .set_uint32 idx write => session.storage.NumberFits idx write
  | .set_elem k write realloc => session.storage.ElemFits k write realloc
  | .set_length new_len => session.storage.LengthFits new_len
  | .set_array_length len realloc =>
    (-2 ^ 31 ≤ len ∧ len < 2 ^ 31) ∧ session.storage.ArrayLengthFits len realloc
  | .push args realloc =>
    Runs.Throughout (pushOne fuel) (fun session write =>
      session.storage.NumberFits write.1 write.2) session (session.pushed args) ∧
    ∀ written, Runs.after (pushOne fuel) session (session.pushed args) = some written →
      written.storage.ArrayLengthFits
        ((session.get_array_length + args.length).bmod (2 ^ 32)) realloc
  | .pop realloc =>
    session.get_array_length ≠ 0 →
      session.storage.ArrayLengthFits ((session.get_array_length - 1).bmod (2 ^ 32)) realloc

theorem bind_of_eq_some {found : Option ArraySession} {written : ArraySession}
    (arrives : found = some written) (later : ArraySession → Option ArraySession) :
    (found >>= later) = later written := by
  rw [arrives]
  rfl

theorem bmod_int32 (n : Int) : -2 ^ 31 ≤ n.bmod (2 ^ 32) ∧ n.bmod (2 ^ 32) < 2 ^ 31 := by
  have lower := Int.le_bmod (x := n) (m := 2 ^ 32) (by decide)
  have upper := Int.bmod_lt (x := n) (m := 2 ^ 32) (by decide)
  omega

theorem next_sound {fuel : Nat} (enough : 32 ≤ fuel) (session : ArraySession) (call : ArrayCall)
    (sound : session.Sound) (fits : session.Fits fuel call) :
    ∃ later, session.next fuel call = some later ∧ later.Sound := by
  cases call with
  | set_property idx write => exact set_property_sound enough sound write fits
  | set_uint32 idx write => exact set_uint32_sound enough sound fits
  | set_elem k write realloc => exact set_elem_sound enough sound fits
  | set_length new_len => exact ⟨_, rfl, set_length_sound sound fits⟩
  | set_array_length len realloc => exact set_array_length_sound enough sound fits.1 fits.2
  | push args realloc =>
    obtain ⟨writes, last⟩ := fits
    obtain ⟨written, arrives, kept⟩ :=
      Runs.Throughout.arrives_with (pushOne_sound enough) sound writes
    obtain ⟨later, resized, sound'⟩ := set_array_length_sound enough kept (bmod_int32 _)
      (last written arrives)
    have pushes : session.next fuel (.push args realloc) = written.set_array_length fuel
        ((session.get_array_length + args.length).bmod (2 ^ 32)) realloc :=
      bind_of_eq_some arrives _
    exact ⟨later, pushes.trans resized, sound'⟩
  | pop realloc =>
    rw [next, js_array_proto_pop]
    by_cases empty : session.get_array_length = 0
    · rw [if_pos empty]
      exact ⟨session, rfl, sound⟩
    · rw [if_neg empty]
      exact set_array_length_sound enough sound (bmod_int32 _) (fits empty)

theorem initial_sound : initial.Sound where
  positive := by decide
  unsigned := by decide
  capacity := by decide
  cleared := fun _ _ _ => rfl
  length := rfl
  values := fun _ _ => rfl
  beyond := fun _ _ => rfl
  named := fun _ _ => rfl

/-- In every run of calls that fit the storage is the array that is meant. -/
theorem array_storage_faithful {fuel : Nat} (enough : 32 ≤ fuel) {calls : List ArrayCall}
    (fit : Runs.Throughout (next fuel) (Fits fuel) initial calls) :
    ∃ session, Runs.after (next fuel) initial calls = some session ∧ session.Faithful := by
  obtain ⟨session, arrives, sound⟩ :=
    Runs.Throughout.arrives_with (next_sound enough) initial_sound fit
  exact ⟨session, arrives, Refines.faithful sound⟩

/-- Write, append and extend. -/
theorem array_storage_faithful_append : ∃ session, Runs.after (next 32) initial
    [.set_uint32 0 ⟨.int32 7, true, true, true⟩, .set_elem 1 ⟨.int32 8, true, true, true⟩ none,
      .set_length 5] = some session ∧ session.Faithful := by
  refine array_storage_faithful (by decide) ⟨⟨?_, nofun⟩, ?_⟩
  · exact fun grows => absurd grows (by decide)
  rintro first ⟨⟩
  refine ⟨?_, ?_⟩
  · exact fun grows => absurd grows (by decide)
  rintro second ⟨⟩
  refine ⟨fun _ => ⟨by decide, fun i above below => ?_⟩, fun _ _ => trivial⟩
  have outside : i < 2 := below
  omega

/-- Write, truncate and extend. -/
theorem old_element_reappears : ∃ session, Runs.after (next 32) initial
    [.set_uint32 0 ⟨.int32 7, true, true, true⟩, .set_length 0, .set_length 1] = some session ∧
      session.storage.get_elem 0 = .int32 7 ∧ session.spec.values 0 = .undefined ∧
        ¬ session.Faithful := by
  refine ⟨_, rfl, rfl, rfl, fun faithful => ?_⟩
  have same := faithful.elem 0
  cases same

end ArraySession

end LRJS
