import LRJS.Control
import LRJS.Library.Simulation

/-!
# Values on the operand stack

The machine on the code of one expression: the operand stack, the slots of the function scope and
the error state, with the handlers of `BC_LOAD_PROP`, `BC_ADD` and `BC_LOAD_PROP_ADD`.

The other handlers, the inline cache, the property lookup and the addition are parameters.  A
handler sees the cells that it pops, and leaves as many as `gives` or `jumpGives` says.  The dynamic
cache is left out: an entry is invalidated right after it is filled.
-/

namespace LRJS

structure Fault (Value : Type) where
  error_flag : Bool
  exception_pending : Bool
  exception_value : Value
  error_message : String

/-- The test of `CHECK`. -/
def Fault.raised {Value : Type} (fault : Fault Value) : Bool :=
  fault.error_flag || fault.exception_pending

/-- How a handler ends: at the next instruction, at its jump target, or in `vm_abort`. -/
inductive Move (Value World : Type) where
  | next (cells : List Value) (world : World)
  | jump (cells : List Value) (world : World)
  | abort (world : World)

structure Machine where
  Value : Type
  World : Type
  undefined : Value
  /-- `v.tag == LR_TYPE_UNDEFINED` -/
  isUndefined : Value → Bool
  /-- `interp->current_scope->values` -/
  slots : World → List Value
  fault : World → Fault Value
  /-- what a matching entry of `bc_ic_prop` finds in `obj->props` -/
  ic_hit : World → Value → Name → Option Value
  /-- the length of an array for the name `length` -/
  array_length : World → Value → Name → Option Value
  lr_get_property : World → Value → Name → Value × World
  /-- the entry of `bc_ic_prop` for the receiver, if its shape has a slot for the name -/
  ic_fill : World → Value → Name → World
  /-- the same after the stack's reference is released, when a receiver that its own getter dropped
  is freed memory -/
  ic_fill_late : World → Value → Name → World
  /-- `bcv_binop` on `BC_ADD` -/
  bcv_add : World → Value → Value → Value × World
  handler : Instr → List Value → World → Move Value World
  get_undefined : ∀ world name, lr_get_property world undefined name = (undefined, world)
  get_length : ∀ {world receiver name length}, array_length world receiver name = some length →
    lr_get_property world receiver name = (length, world)
  fill_late_slots : ∀ world receiver name,
    slots (ic_fill_late world receiver name) = slots world
  fill_late_fault : ∀ world receiver name,
    fault (ic_fill_late world receiver name) = fault world
  fill_slots : ∀ world receiver name, slots (ic_fill world receiver name) = slots world
  fill_fault : ∀ world receiver name, fault (ic_fill world receiver name) = fault world
  next_gives : ∀ {ins cells world out world'}, handler ins cells world = .next out world' →
    cells.length = ins.takes → ins.falls = true ∧ out.length = ins.gives
  jump_gives : ∀ {ins cells world out world'}, handler ins cells world = .jump out world' →
    cells.length = ins.takes → ins.target?.isSome = true ∧ out.length = ins.jumpGives

namespace Machine

variable (M : Machine)

/-- Only a defined value fills the cache of `BC_LOAD_PROP`. -/
def loadFill (receiver : M.Value) (name : Name) (value : M.Value) (world : M.World) : M.World :=
  if M.isUndefined value then world else M.ic_fill world receiver name

theorem loadFill_kept (receiver : M.Value) (name : Name) (value : M.Value) (world : M.World) :
    M.slots (M.loadFill receiver name value world) = M.slots world ∧
      M.fault (M.loadFill receiver name value world) = M.fault world := by
  unfold loadFill
  split
  · exact ⟨rfl, rfl⟩
  · exact ⟨M.fill_slots .., M.fill_fault ..⟩

/-- `BC_LOAD_PROP`; a slot past the scope reads `undefined`. -/
def load_prop (slot : Nat) (name : Name) (stack : List M.Value) (world : M.World) :
    Move M.Value M.World :=
  match (M.slots world)[slot]? with
  | none => .next (M.undefined :: stack) world
  | some receiver =>
    match (M.ic_hit world receiver name).or (M.array_length world receiver name) with
    | some value => .next (value :: stack) world
    | none =>
      let (value, world) := M.lr_get_property world receiver name
      let world := M.loadFill receiver name value world
      if (M.fault world).raised then .abort world else .next (value :: stack) world

/-- `BC_ADD`. -/
def add (stack : List M.Value) (world : M.World) : Move M.Value M.World :=
  match stack with
  | b :: a :: rest =>
    let (sum, world) := M.bcv_add world a b
    if (M.fault world).error_flag then .abort world else .next (sum :: rest) world
  | _ => .abort world

/-- The entry that `BC_LOAD_PROP_ADD` finds for its receiver. -/
def fusedHit (slot : Nat) (name : Name) (world : M.World) : Option M.Value :=
  (M.slots world)[slot]?.bind fun receiver => M.ic_hit world receiver name

/-- The lookup of `BC_LOAD_PROP_ADD`, which fills the cache whatever the value is. -/
def fusedMiss (slot : Nat) (name : Name) (world : M.World) : M.Value × M.World :=
  match (M.slots world)[slot]? with
  | none => M.lr_get_property world M.undefined name
  | some receiver =>
    let (value, world) := M.lr_get_property world receiver name
    (value, M.ic_fill_late world receiver name)

/-- What `BC_LOAD_PROP_ADD` reads with an accumulator on the stack. -/
def fusedRead (slot : Nat) (name : Name) (world : M.World) : M.Value × M.World :=
  match M.fusedHit slot name world with
  | some value => (value, world)
  | none => M.fusedMiss slot name world

/-- `BC_LOAD_PROP_ADD`: the property is added to the accumulator on the stack, without a `CHECK` in
between; on an empty stack it is only pushed, and the cache is not asked. -/
def load_prop_add (slot : Nat) (name : Name) (stack : List M.Value) (world : M.World) :
    Move M.Value M.World :=
  match stack with
  | [] =>
    let (value, world) := M.fusedMiss slot name world
    if (M.fault world).raised then .abort world else .next [value] world
  | a :: rest =>
    let (value, world) := M.fusedRead slot name world
    let (sum, world) := M.bcv_add world a value
    if (M.fault world).raised then .abort world else .next (sum :: rest) world

def onStack (rest : List M.Value) : Move M.Value M.World → Move M.Value M.World
  | .next cells world => .next (cells ++ rest) world
  | .jump cells world => .jump (cells ++ rest) world
  | .abort world => .abort world

def exec (ins : Instr) (stack : List M.Value) (world : M.World) : Move M.Value M.World :=
  match ins with
  | .loadProp slot _ name => M.load_prop slot name stack world
  | .bin .add => M.add stack world
  | .loadPropAdd slot _ name => M.load_prop_add slot name stack world
  | ins =>
    M.onStack (stack.drop ins.takes) (M.handler (ins.setTarget 0) (stack.take ins.takes) world)

structure State where
  pc : Nat
  stack : List M.Value
  world : M.World

/-- What a run leaves: the operand stack and everything else, or the slots and
the error with which it was aborted. -/
inductive Outcome where
  | finished (stack : List M.Value) (world : M.World)
  | aborted (slots : List M.Value) (fault : Fault M.Value)

/-- One step on `code`; the run ends at the first position past the code. -/
def step (code : List Instr) (s : M.State) : M.State ⊕ M.Outcome :=
  match code[s.pc]? with
  | none => .inr (.finished s.stack s.world)
  | some ins =>
    match M.exec ins s.stack s.world with
    | .next stack world => .inl ⟨s.pc + 1, stack, world⟩
    | .jump stack world => .inl ⟨ins.target?.getD 0, stack, world⟩
    | .abort world => .inr (.aborted (M.slots world) (M.fault world))

/-- `code` started on `stack` ends with `outcome`. -/
def Yields (code : List Instr) (stack : List M.Value) (world : M.World) (outcome : M.Outcome) :
    Prop :=
  Simulation.Yields (M.step code) ⟨0, stack, world⟩ outcome

/-- The lookup leaves the cache to `BC_LOAD_PROP_ADD` as it does to `BC_LOAD_PROP`: where only the
former fills the cache there is no slot to remember, and the receiver outlives its getter. -/
def FillsAlike (receiver : M.Value) (name : Name) (world : M.World) : Prop :=
  M.ic_hit world receiver name = none →
    if (M.array_length world receiver name).isSome then
      M.ic_fill_late world receiver name = world
    else
      let (value, world) := M.lr_get_property world receiver name
      (M.fault world).raised = false →
        M.ic_fill_late world receiver name = M.loadFill receiver name value world

/-- An addition raises by setting `error_flag`, and while an error is pending it changes neither the
slots nor the error. -/
structure AddsQuietly (a b : M.Value) (world : M.World) : Prop where
  flagged : (M.fault world).raised = false → (M.fault (M.bcv_add world a b).2).raised = true →
    (M.fault (M.bcv_add world a b).2).error_flag = true
  quiet : (M.fault world).raised = true → M.slots (M.bcv_add world a b).2 = M.slots world ∧
    M.fault (M.bcv_add world a b).2 = M.fault world

/-- In this state `BC_LOAD_PROP_ADD` can stand for `BC_LOAD_PROP` and `BC_ADD`. -/
structure Settled (slot : Nat) (name : Name) (stack : List M.Value) (world : M.World) : Prop where
  clear : (M.fault world).raised = false
  fills : ∀ receiver, (M.slots world)[slot]? = some receiver → M.FillsAlike receiver name world
  adds : ∀ a ∈ stack.head?, M.AddsQuietly a (M.fusedRead slot name world).1
    (M.fusedRead slot name world).2

/-- The run from `s` meets every `BC_LOAD_PROP_ADD` in a settled state. -/
def SettledFrom (code : List Instr) (s : M.State) : Prop :=
  ∀ count s', Simulation.steps (M.step code) count s = .inl s' → ∀ slot receiver name,
    code[s'.pc]? = some (.loadPropAdd slot receiver name) →
      M.Settled slot name s'.stack s'.world

end Machine

end LRJS
