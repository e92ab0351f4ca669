import LRJS.Machine
import LRJS.Library.Relocation

/-!
# Code without the peephole

`unfuse` replaces every `BC_LOAD_PROP_ADD` by `BC_LOAD_PROP` and `BC_ADD` and
moves the jump targets.  The code and its replacement have the same outcomes in
every run that meets each `BC_LOAD_PROP_ADD` in a settled state with the
accumulator on the stack.
-/

namespace LRJS

open Relocation Simulation List Option Instr

namespace Instr

def width : Instr → Nat
  | .loadPropAdd _ _ _ => 2
  | _ => 1

def mapTarget (move : Nat → Nat) (ins : Instr) : Instr :=
  match ins.target? with
  | some target => ins.setTarget (move target)
  | none => ins

def unfused (move : Nat → Nat) : Instr → List Instr
  | .loadPropAdd slot receiver name => [.loadProp slot receiver name, .bin .add]
  | ins => [ins.mapTarget move]

/-- `BC_LOAD_PROP_ADD`. -/
def isFused : Instr → Bool
  | .loadPropAdd _ _ _ => true
  | _ => false

variable (move : Nat → Nat)

theorem length_unfused (ins : Instr) :
    (ins.unfused move).length = ins.width := by
  cases ins <;> rfl

theorem width_eq_one {ins : Instr} (plain : ins.isFused = false) : ins.width = 1 := by
  cases ins <;> first | rfl | cases plain

theorem unfused_eq {ins : Instr} (plain : ins.isFused = false) (move : Nat → Nat) :
    ins.unfused move = [ins.mapTarget move] := by
  cases ins <;> first | rfl | cases plain

@[simp]
theorem width_setTarget (target : Nat) (ins : Instr) : (ins.setTarget target).width =
    ins.width := by
  cases ins <;> rfl

@[simp]
theorem isFused_setTarget (target : Nat) (ins : Instr) :
    (ins.setTarget target).isFused = ins.isFused := by
  cases ins <;> rfl

theorem target?_mapTarget (ins : Instr) :
    (ins.mapTarget move).target? = ins.target?.map move := by
  cases ins <;> rfl

theorem mapTarget_setTarget (target : Nat) (ins : Instr) :
    (ins.setTarget target).mapTarget move = (ins.mapTarget move).setTarget (move target) := by
  cases ins <;> rfl

theorem mapTarget_congr {ins : Instr} {move move' : Nat → Nat}
    (same : ∀ target, ins.target? = some target → move target = move' target) :
    ins.mapTarget move = ins.mapTarget move' := by
  unfold mapTarget
  split
  · rename_i target hasTarget
    rw [same target hasTarget]
  · rfl

theorem exec_mapTarget (M : Machine) (move : Nat → Nat) (ins : Instr) (stack : List M.Value)
    (world : M.World) : M.exec (ins.mapTarget move) stack world = M.exec ins stack world := by
  cases ins <;> rfl

end Instr

def unfusedAt (code : List Instr) (pos : Nat) : Nat :=
  address Instr.width code pos

def unfuse (code : List Instr) : List Instr :=
  code.flatMap (Instr.unfused (unfusedAt code))

variable {code : List Instr}

theorem unfuse_getElem? {pos : Nat} {ins : Instr} (offset : Nat)
    (fetch : code[pos]? = some ins) (inside : offset < ins.width) :
    (unfuse code)[unfusedAt code pos + offset]? = (ins.unfused (unfusedAt code))[offset]? :=
  getElem?_flatMap (length_unfused _) fetch inside

theorem unfusedAt_succ {pos : Nat} {ins : Instr}
    (fetch : code[pos]? = some ins) : unfusedAt code (pos + 1) = unfusedAt code pos + ins.width :=
  address_succ fetch

theorem unfuse_getElem?_end {pos : Nat} (past : code[pos]? = none) :
    (unfuse code)[unfusedAt code pos]? = none := by
  rw [getElem?_eq_none_iff] at past ⊢
  have length : (unfuse code).length = unfusedAt code pos := by
    rw [unfuse, unfusedAt, length_flatMap (length_unfused _), address, address,
      take_length, take_of_length_le past]
  exact Nat.le_of_eq length

/-- `depthAt` bounds the operand stack from below wherever a run can be. -/
structure Supported (code : List Instr) (depthAt : Nat → Nat) : Prop where
  enough : ∀ {pos ins}, code[pos]? = some ins → ins.takes ≤ depthAt pos
  fall : ∀ {pos ins}, code[pos]? = some ins → ins.falls = true →
    depthAt (pos + 1) ≤ depthAt pos - ins.takes + ins.gives
  jump : ∀ {pos ins target}, code[pos]? = some ins → ins.target? = some target →
    depthAt target ≤ depthAt pos - ins.takes + ins.jumpGives

namespace Machine

variable (M : Machine) {code : List Instr} {depthAt : Nat → Nat}

theorem length_onStack_next {rest out : List M.Value} {move : Move M.Value M.World}
    {world : M.World} (moves : M.onStack rest move = .next out world) :
    ∃ cells, move = .next cells world ∧ out.length = cells.length + rest.length := by
  cases move with
  | next cells other =>
    cases moves
    exact ⟨cells, rfl, length_append⟩
  | _ =>
    cases moves

theorem length_onStack_jump {rest out : List M.Value} {move : Move M.Value M.World}
    {world : M.World} (moves : M.onStack rest move = .jump out world) :
    ∃ cells, move = .jump cells world ∧ out.length = cells.length + rest.length := by
  cases move with
  | jump cells other =>
    cases moves
    exact ⟨cells, rfl, length_append⟩
  | _ =>
    cases moves

variable {ins : Instr} {stack out : List M.Value} {world world' : M.World}

variable {slot : Nat} {name : Name}

/-- A load of a property pushes one cell. -/
theorem load_prop_next (moves : M.load_prop slot name stack world = .next out world') :
    out.length = stack.length + 1 := by
  unfold load_prop at moves
  split at moves
  · cases moves
    rfl
  · split at moves
    · cases moves
      rfl
    · dsimp only at moves
      split at moves
      · cases moves
      · cases moves
        rfl

theorem load_prop_not_jump : M.load_prop slot name stack world ≠ .jump out world' := by
  unfold load_prop
  split
  · nofun
  · split
    · nofun
    · dsimp only
      split
      · nofun
      · nofun

theorem add_next (moves : M.add stack world = .next out world') :
    out.length + 1 = stack.length := by
  unfold add at moves
  split at moves
  · dsimp only at moves
    split at moves
    · cases moves
    · cases moves
      rfl
  · cases moves

theorem add_not_jump : M.add stack world ≠ .jump out world' := by
  unfold add
  split
  · dsimp only
    split <;> nofun
  · nofun

/-- The fused instruction leaves the height of the stack. -/
theorem load_prop_add_next (nonempty : 0 < stack.length)
    (moves : M.load_prop_add slot name stack world = .next out world') :
    out.length = stack.length := by
  unfold load_prop_add at moves
  split at moves
  · cases nonempty
  · dsimp only at moves
    split at moves
    · cases moves
    · cases moves
      rfl

theorem load_prop_add_not_jump : M.load_prop_add slot name stack world ≠ .jump out world' := by
  unfold load_prop_add
  split
  · dsimp only
    split <;> nofun
  · dsimp only
    split <;> nofun

/-- An instruction that goes on leaves the cells that its entry says. -/
theorem exec_next (enough : ins.takes ≤ stack.length)
    (moves : M.exec ins stack world = .next out world') :
    ins.falls = true ∧ out.length = stack.length - ins.takes + ins.gives := by
  unfold exec at moves
  split at moves
  · exact ⟨rfl, M.load_prop_next moves⟩
  · have popped := M.add_next moves
    simp only [takes] at enough
    exact ⟨rfl, by simp only [takes, gives]; omega⟩
  · have kept := M.load_prop_add_next enough moves
    refine ⟨rfl, ?_⟩
    simp only [takes, gives] at enough ⊢
    omega
  · obtain ⟨cells, handled, length⟩ := M.length_onStack_next moves
    obtain ⟨falls, gives⟩ := M.next_gives handled (by simp [enough])
    simp only [falls_setTarget, gives_setTarget] at falls gives
    exact ⟨falls, by rw [length, gives, length_drop]; omega⟩

/-- A jump leaves the cells that its entry says. -/
theorem exec_jump (enough : ins.takes ≤ stack.length)
    (moves : M.exec ins stack world = .jump out world') :
    ins.target?.isSome = true ∧ out.length = stack.length - ins.takes + ins.jumpGives := by
  unfold exec at moves
  split at moves
  · exact absurd moves (M.load_prop_not_jump)
  · exact absurd moves (M.add_not_jump)
  · exact absurd moves (M.load_prop_add_not_jump)
  · obtain ⟨cells, handled, length⟩ := M.length_onStack_jump moves
    obtain ⟨hasTarget, gives⟩ := M.jump_gives handled (by simp [enough])
    simp only [target?_setTarget, isSome_map, jumpGives_setTarget]
      at hasTarget gives
    exact ⟨hasTarget, by rw [length, gives, length_drop]; omega⟩

def Unfuses (code : List Instr) (depthAt : Nat → Nat) (s t : M.State) : Prop :=
  t = ⟨unfusedAt code s.pc, s.stack, s.world⟩ ∧ depthAt s.pc ≤ s.stack.length ∧
    M.SettledFrom code s

theorem SettledFrom.step {M : Machine} {s s' : M.State} (settled : M.SettledFrom code s)
    (moves : M.step code s = .inl s') : M.SettledFrom code s' :=
  fun count after leads => settled (count + 1) after ((steps_of_inl count moves).trans leads)

theorem SettledFrom.here {M : Machine} {s : M.State} (settled : M.SettledFrom code s)
    {slot : Nat} {receiver name : Name}
    (fetch : code[s.pc]? = some (.loadPropAdd slot receiver name)) :
    M.Settled slot name s.stack s.world :=
  settled 0 s rfl slot receiver name fetch

/-- The two instructions read the same, unless the getter raises. -/
theorem load_prop_read (settled : M.Settled slot name stack world) :
    ((M.fault (M.fusedRead slot name world).2).raised = false ∧
      M.load_prop slot name stack world =
        .next ((M.fusedRead slot name world).1 :: stack) (M.fusedRead slot name world).2) ∨
    (M.fault (M.fusedRead slot name world).2).raised = true ∧
      ∃ second, M.load_prop slot name stack world = .abort second ∧
        M.slots second = M.slots (M.fusedRead slot name world).2 ∧
        M.fault second = M.fault (M.fusedRead slot name world).2 := by
  unfold fusedRead fusedHit fusedMiss load_prop
  cases found : (M.slots world)[slot]? with
  | none => exact .inl (by simp [M.get_undefined, settled.clear])
  | some receiver =>
    have fills := settled.fills receiver found
    unfold FillsAlike at fills
    cases hit : M.ic_hit world receiver name with
    | some value => exact .inl (by simp [hit, settled.clear])
    | none =>
      replace fills := fills hit
      simp only [bind_some, hit, none_or]
      cases length : M.array_length world receiver name with
      | some value =>
        simp only [length, isSome_some, if_true] at fills
        exact .inl (by simp [M.get_length length, fills, settled.clear])
      | none =>
        simp only [length, isSome_none, Bool.false_eq_true, if_false] at fills
        let read := M.lr_get_property world receiver name
        have filled := M.loadFill_kept receiver name read.1 read.2
        rw [M.fill_late_fault, M.fill_late_slots, filled.2]
        cases raised : (M.fault read.2).raised with
        | true => exact .inr ⟨rfl, _, rfl, filled⟩
        | false => exact .inl ⟨rfl, by rw [fills raised]; rfl⟩

/-- `BC_LOAD_PROP_ADD` does what `BC_LOAD_PROP` and `BC_ADD` do, up to what the addition does while
the error of a getter is pending. -/
theorem load_prop_add_eq {a : M.Value} {rest : List M.Value}
    (settled : M.Settled slot name (a :: rest) world) :
    (∃ first second, M.load_prop_add slot name (a :: rest) world = .abort first ∧
      M.load_prop slot name (a :: rest) world = .abort second ∧
      M.slots first = M.slots second ∧ M.fault first = M.fault second) ∨
    ∃ stack middle, M.load_prop slot name (a :: rest) world = .next stack middle ∧
      M.load_prop_add slot name (a :: rest) world = M.add stack middle := by
  obtain ⟨flagged, quiet⟩ := settled.adds a rfl
  let read := M.fusedRead slot name world
  let added := M.bcv_add read.2 a read.1
  have fused : M.load_prop_add slot name (a :: rest) world =
      if (M.fault added.2).raised then .abort added.2 else .next (added.1 :: rest) added.2 :=
    rfl
  rcases M.load_prop_read settled with ⟨clear, loaded⟩ | ⟨raised, second, loaded, slots, fault⟩
  · right
    refine ⟨_, _, loaded, ?_⟩
    have flag : (M.fault added.2).raised = (M.fault added.2).error_flag := by
      cases after : (M.fault added.2).raised with
      | true => exact (flagged clear after).symm
      | false => exact (Bool.or_eq_false_iff.mp after).1.symm
    rw [fused, flag]
    rfl
  · left
    obtain ⟨keptSlots, keptFault⟩ := quiet raised
    refine ⟨_, second, ?_, loaded, keptSlots.trans slots.symm, keptFault.trans fault.symm⟩
    rw [fused, if_pos]
    rw [keptFault, raised]

variable {s : M.State}

theorem step_next (fetch : code[s.pc]? = some ins)
    (moves : M.exec ins s.stack s.world = .next out world') :
    M.step code s = .inl ⟨s.pc + 1, out, world'⟩ := by
  simp only [step, fetch, moves]

theorem step_jump {target : Nat} (fetch : code[s.pc]? = some ins)
    (moves : M.exec ins s.stack s.world = .jump out world')
    (hasTarget : ins.target? = some target) :
    M.step code s = .inl ⟨target, out, world'⟩ := by
  simp [step, fetch, moves, hasTarget]

theorem step_abort (fetch : code[s.pc]? = some ins)
    (moves : M.exec ins s.stack s.world = .abort world') :
    M.step code s = .inr (.aborted (M.slots world') (M.fault world')) := by
  simp only [step, fetch, moves]

theorem step_past (past : code[s.pc]? = none) :
    M.step code s = .inr (.finished s.stack s.world) := by
  simp only [step, past]

theorem steps_one {next : M.State ⊕ M.Outcome} (equality : M.step code s = next) :
    Simulation.steps (M.step code) 1 s = next := by
  cases next with
  | inl s' =>
    exact steps_of_inl 0 equality
  | inr outcome =>
    exact steps_of_inr 0 equality

/-- An instruction that is not fused steps alike in both codes. -/
theorem unfuse_plain (supported : Supported code depthAt)
    (height : depthAt s.pc ≤ s.stack.length) (settled : M.SettledFrom code s)
    (fetch : code[s.pc]? = some ins) (plain : ins.isFused = false) :
    MatchedBy (M.step (unfuse code)) (M.Unfuses code depthAt)
      ⟨unfusedAt code s.pc, s.stack, s.world⟩ (M.step code s) := by
  have fetch' : (unfuse code)[unfusedAt code s.pc]? = some (ins.mapTarget (unfusedAt code)) := by
    have placed := unfuse_getElem? 0 fetch (by rw [width_eq_one plain]; omega)
    rwa [unfused_eq plain] at placed
  have enough : ins.takes ≤ s.stack.length :=
    Nat.le_trans (supported.enough fetch) height
  have same := ins.exec_mapTarget M (unfusedAt code) s.stack s.world
  cases moves : M.exec ins s.stack s.world with
  | next stack world =>
    have stepped := M.step_next fetch moves
    rw [stepped]
    obtain ⟨falls, length⟩ := M.exec_next enough moves
    have room := supported.fall fetch falls
    refine ⟨0, _, M.steps_one (M.step_next fetch' (same.trans moves)), ?_, ?_,
      settled.step stepped⟩
    · have moved := unfusedAt_succ fetch
      rw [width_eq_one plain] at moved
      exact congrArg (fun pc => Machine.State.mk (M := M) pc stack world) moved.symm
    · change depthAt (s.pc + 1) ≤ stack.length
      omega
  | jump stack world =>
    obtain ⟨isJump, length⟩ := M.exec_jump enough moves
    obtain ⟨target, hasTarget⟩ := Option.isSome_iff_exists.mp isJump
    have stepped := M.step_jump fetch moves hasTarget
    rw [stepped]
    have room := supported.jump fetch hasTarget
    have hasTarget' : (ins.mapTarget (unfusedAt code)).target? = some (unfusedAt code target) := by
      rw [target?_mapTarget, hasTarget]
      rfl
    refine ⟨0, _, M.steps_one (M.step_jump fetch' (same.trans moves) hasTarget'), rfl, ?_,
      settled.step stepped⟩
    change depthAt target ≤ stack.length
    omega
  | abort world =>
    rw [M.step_abort fetch moves]
    exact ⟨0, M.steps_one (M.step_abort fetch' (same.trans moves))⟩

section

variable (supported : Supported code depthAt)
include supported

/-- The fused instruction is matched by the load and the addition. -/
theorem unfuse_fused {receiver : Name} (height : depthAt s.pc ≤ s.stack.length)
    (settled : M.SettledFrom code s)
    (fetch : code[s.pc]? = some (.loadPropAdd slot receiver name)) :
    MatchedBy (M.step (unfuse code)) (M.Unfuses code depthAt)
      ⟨unfusedAt code s.pc, s.stack, s.world⟩ (M.step code s) := by
  obtain ⟨pc, stack, world⟩ := s
  have fetchLoad : (unfuse code)[unfusedAt code pc]? = some (.loadProp slot receiver name) :=
    unfuse_getElem? 0 fetch Nat.zero_lt_two
  have fetchAdd : (unfuse code)[unfusedAt code pc + 1]? = some (.bin .add) :=
    unfuse_getElem? 1 fetch Nat.one_lt_two
  have enough : 1 ≤ stack.length :=
    Nat.le_trans (supported.enough fetch) height
  cases stack with
  | nil =>
    cases enough
  | cons a rest =>
  rcases M.load_prop_add_eq (settled.here fetch) with
    ⟨first, second, fused, loaded, slots, fault⟩ | ⟨stack, middle, loaded, fused⟩
  · rw [M.step_abort (s := ⟨pc, a :: rest, world⟩) fetch fused, slots, fault]
    exact ⟨0, steps_one M (M.step_abort fetchLoad loaded)⟩
  · have first := M.step_next (s := ⟨unfusedAt code pc, a :: rest, world⟩) fetchLoad loaded
    cases added : M.add stack middle with
    | next out world' =>
      have second := M.step_next (s := ⟨unfusedAt code pc + 1, stack, middle⟩) fetchAdd added
      have stepped := M.step_next (s := ⟨pc, a :: rest, world⟩) fetch (fused.trans added)
      rw [stepped]
      refine ⟨1, _, (steps_of_inl 1 first).trans (M.steps_one second), ?_, ?_,
        settled.step stepped⟩
      · exact congrArg (fun pc => Machine.State.mk (M := M) pc out world')
          (unfusedAt_succ fetch).symm
      · have room := supported.fall fetch rfl
        have kept := M.load_prop_add_next enough (fused.trans added)
        change depthAt (pc + 1) ≤ out.length
        simp only [takes, gives] at room
        change depthAt pc ≤ (a :: rest).length at height
        omega
    | jump out world' =>
      exact absurd added M.add_not_jump
    | abort world' =>
      have second := M.step_abort (s := ⟨unfusedAt code pc + 1, stack, middle⟩) fetchAdd added
      rw [M.step_abort (s := ⟨pc, a :: rest, world⟩) fetch (fused.trans added)]
      exact ⟨1, (steps_of_inl 1 first).trans (M.steps_one second)⟩

/-- Every step is matched in the unfused code. -/
theorem unfuse_matches : Matches (M.step code) (M.step (unfuse code)) (M.Unfuses code depthAt) := by
  rintro s t ⟨rfl, height, settled⟩
  cases fetch : code[s.pc]? with
  | none =>
    rw [M.step_past fetch]
    exact ⟨0, M.steps_one (M.step_past (unfuse_getElem?_end fetch))⟩
  | some ins =>
    cases plain : ins.isFused with
    | false =>
      exact M.unfuse_plain supported height settled fetch plain
    | true =>
      cases ins with
      | loadPropAdd slot receiver name =>
        exact M.unfuse_fused supported height settled fetch
      | _ =>
        cases plain

theorem yields_unfuse (start : depthAt 0 = 0) (stack : List M.Value) (world : M.World)
    (settled : M.SettledFrom code ⟨0, stack, world⟩) (outcome : M.Outcome) :
    M.Yields code stack world outcome ↔ M.Yields (unfuse code) stack world outcome := by
  have height : depthAt 0 ≤ stack.length := by
    rw [start]
    exact Nat.zero_le _
  exact (M.unfuse_matches supported).yields_iff ⟨rfl, height, settled⟩

end

end Machine

end LRJS
