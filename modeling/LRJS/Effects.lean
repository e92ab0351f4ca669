import LRJS.LevelRules

/-!
# Stack effects of compilation steps

The rules that compose `Effect`s, and the effect of every emission function.
An effect is read as in a concatenative language: `Effect f 2 1` compiles code
that replaces two operand cells by one.
-/

namespace LRJS

variable {origin c : BCComp} {originLevel level : Nat → Level}
variable {pending : List (Nat × Level)} {base depth scopes takes gives : Nat}
variable {f g : Comp}

theorem Levelled.stage (state : Levelled c level pending base depth scopes) :
    Stage c level c pending base depth scopes :=
  ⟨level, state, .refl state.topFits⟩

theorem Stage.bind {c' : BCComp} {pending' : List (Nat × Level)} {depth' scopes' : Nat}
    (stage : Stage origin originLevel c pending base depth scopes)
    (next : ∀ level, Levelled c level pending base depth scopes →
      Stage c level c' pending' base depth' scopes') :
    Stage origin originLevel c' pending' base depth' scopes' := by
  obtain ⟨level, state, extends_⟩ := stage
  obtain ⟨level', state', extends'⟩ := next level state
  exact ⟨level', state', extends_.trans extends'⟩

theorem Stage.run (stage : Stage origin originLevel c pending base (depth + takes) scopes)
    (effect : Effect f takes gives) (isOk : (f c).ok = true) :
    Stage origin originLevel (f c) pending base (depth + gives) scopes :=
  stage.bind fun level state => effect.run c level pending base depth scopes state isOk

theorem Effect.seq {middle : Nat} (first : Effect f takes middle) (second : Effect g middle gives) :
    Effect (fun c => g (f c)) takes gives where
  ok := fun c isOk => first.ok c (second.ok _ isOk)
  run := by
    intro c level pending base depth scopes state isOk
    exact (state.stage.run first (second.ok _ isOk)).run second isOk

theorem Effect.above (extra : Nat) (effect : Effect f takes gives) :
    Effect f (takes + extra) (gives + extra) where
  ok := effect.ok
  run := by
    intro c level pending base depth scopes state isOk
    have shift (cells : Nat) : depth + (cells + extra) = depth + extra + cells := by
      omega
    rw [shift] at state ⊢
    exact effect.run c level pending base (depth + extra) scopes state isOk

theorem Effect.idle (cells : Nat) : Effect id cells cells where
  ok := fun _ isOk => isOk
  run := fun _ _ _ _ _ _ state _ => state.stage

theorem Effect.of_fail (fails : ∀ c, (f c).ok = false) : Effect f takes gives where
  ok := by
    intro c isOk
    rw [fails c] at isOk
    cases isOk
  run := by
    intro c _ _ _ _ _ _ isOk
    rw [fails c] at isOk
    cases isOk

theorem Effect.of_same (same : ∀ c, SameCode c (f c)) (ok : ∀ c, (f c).ok = true → c.ok = true) :
    Effect f 0 0 where
  ok := ok
  run := by
    intro c level pending base depth scopes state _
    exact ⟨level, state.of_same (same c), .of_same (same c) state.topFits⟩

/-- A function that does nothing after an error, where it succeeds. -/
theorem ok_of_guarded (same : ∀ c, g c = if !c.ok then c else f c) {c : BCComp}
    (isOk : (g c).ok = true) : c.ok = true ∧ g c = f c := by
  rw [same c] at isOk ⊢
  cases ok : c.ok with
  | true => exact ⟨rfl, rfl⟩
  | false => simp [ok] at isOk

theorem Effect.guarded (same : ∀ c, g c = if !c.ok then c else f c)
    (effect : Effect f takes gives) : Effect g takes gives where
  ok := fun _ isOk => (ok_of_guarded same isOk).1
  run := by
    intro c level pending base depth scopes state isOk
    have equality := (ok_of_guarded same isOk).2
    rw [equality] at isOk ⊢
    exact effect.run c level pending base depth scopes state isOk

namespace Instr

def isPlain (ins : Instr) : Bool :=
  match ins with
  | .scopeEnter | .scopeLeave => false
  | _ => ins.target?.isNone && ins.slot?.isNone

variable {ins : Instr}

section

variable (plain : ins.isPlain = true)
include plain

theorem isPlain_target : ins.target? = none := by
  cases ins <;> first | rfl | cases plain

theorem isPlain_slot : ins.slot? = none := by
  cases ins <;> first | rfl | cases plain

theorem isPlain_leave : ins ≠ .scopeLeave := by
  rintro rfl
  cases plain

theorem isPlain_scopes (open_ : Nat) : ins.scopesAfter open_ = open_ := by
  cases ins <;> first | rfl | cases plain

end

theorem slot_scopes {slot : Nat} {name : Name}
    (hasSlot : ins.slot? = some (slot, name)) (open_ : Nat) : ins.scopesAfter open_ = open_ := by
  cases ins <;> first | rfl | cases hasSlot

theorem target_scopes {goal : Nat} (hasTarget : ins.target? = some goal) (open_ : Nat) :
    ins.scopesAfter open_ = open_ := by
  cases ins <;> first | rfl | cases hasTarget

theorem target_notLeave {goal : Nat} (hasTarget : ins.target? = some goal) : ins ≠ .scopeLeave := by
  rintro rfl
  cases hasTarget

end Instr

variable {ins : Instr}

theorem emit_of_ok (ok : c.ok = true) (notAdd : ins ≠ .bin .add) :
    emit ins c = appendInstr ins c := by
  simp only [emit, ok, Bool.not_true, Bool.false_eq_true, if_false]
  split
  · exact absurd rfl notAdd
  · rfl

@[simp]
theorem ok_emit (ins : Instr) : (emit ins c).ok = c.ok := by
  unfold emit
  split
  · rfl
  · split
    · split <;> rfl
    · rfl

theorem ok_of_emit (isOk : (emit ins c).ok = true) : c.ok = true := by
  rwa [ok_emit] at isOk

theorem ok_of_emit16 {operand : Nat} (isOk : (emit16 ins operand c).ok = true) : c.ok = true := by
  unfold emit16 at isOk
  split at isOk
  · exact absurd isOk Bool.false_ne_true
  · exact ok_of_emit isOk

theorem append_scopeDepth (same : c.localScopeDepth = scopes) :
    { appendInstr ins c with localScopeDepth := scopes } = appendInstr ins c := by
  subst same
  rfl

/-- Appending an instruction without a jump, which may also take cells of the
enclosing statement. -/
theorem Levelled.append_straight (ins : Instr) (next : Nat)
    (state : Levelled c level pending base depth scopes) (enough : ins.takes ≤ base + depth)
    (result : base + next = base + depth - ins.takes + ins.gives)
    (noTarget : ins.target? = none) (notLeave : ins ≠ .scopeLeave)
    (sameScopes : ins.scopesAfter scopes = scopes)
    (slot : ∀ slot name, ins.slot? = some (slot, name) →
      scopes = 0 ∧ c.localNames.idxOf? name = some slot) :
    Stage c level (appendInstr ins c) pending base next scopes := by
  have admits : Admits c (base + depth) scopes ins ⟨base + next, scopes⟩ :=
    { enough := enough
      leave := fun isLeave => absurd isLeave notLeave
      fallDepth := fun _ _ => result
      fallLeast := fun _ => result.le
      fallScopes := fun _ => sameScopes.symm
      slot := slot }
  have appended := state.append [] admits (by simp [noTarget]) (by simp) state.loops
  rw [append_scopeDepth state.scopeDepth] at appended
  exact ⟨_, appended, state.append_extends ..⟩

/-- A plain instruction takes and gives cells as its entry in the table says. -/
theorem effect_emit (ins : Instr) (plain : ins.isPlain = true) :
    Effect (emit ins) ins.takes ins.gives where
  ok := fun _ => ok_of_emit
  run := by
    intro c level pending base depth scopes state isOk
    have ok := ok_of_emit isOk
    have straight := state.append_straight ins (depth + ins.gives) (by omega) (by omega)
      (Instr.isPlain_target plain) (Instr.isPlain_leave plain) (Instr.isPlain_scopes plain _)
      (by simp [Instr.isPlain_slot plain])
    unfold emit at isOk ⊢
    simp only [ok, Bool.not_true, Bool.false_eq_true, if_false] at isOk ⊢
    split
    · rename_i last
      split
      · exact ⟨_, state.fuse last, state.fuse_extends last⟩
      · exact straight
    · exact straight

theorem effect_emit16 (ins : Instr) (operand : Nat) (plain : ins.isPlain = true) :
    Effect (emit16 ins operand) ins.takes ins.gives := by
  by_cases large : operand > 0xFFFF
  · exact .of_fail fun c => by simp [emit16, large, fail]
  · have same : emit16 ins operand = emit ins := by
      funext c
      simp [emit16, large]
    rw [same]
    exact effect_emit ins plain

/-- `name` is the slot local `slot`, and no block scope is open. -/
def HoldsSlot (c : BCComp) (slot : Nat) (name : Name) : Prop :=
  c.localScopeDepth = 0 ∧ c.localNames.idxOf? name = some slot

theorem holdsSlot_of_find {slot : Nat} {name : Name}
    (found : find_local_slot c name = some slot) : HoldsSlot c slot name := by
  unfold find_local_slot at found
  split at found
  · cases found
  · rename_i closed
    simp only [Bool.or_eq_true, decide_eq_true_eq, not_or] at closed
    exact ⟨by simpa using closed.1, found⟩

theorem HoldsSlot.extend {slot : Nat} {name : Name}
    (holds : HoldsSlot origin slot name) (extends_ : Extends base origin originLevel c level) :
    HoldsSlot c slot name :=
  ⟨extends_.scopeDepth.trans holds.1, Tables.idxOf?_of_growth holds.2 extends_.names.extends_⟩

/-- An instruction on a slot keeps the code levelled if the slot has the name. -/
theorem Levelled.emit_slot {slot : Nat} {name : Name} (ins : Instr)
    (state : Levelled c level pending base (depth + ins.takes) scopes)
    (isOk : (emit16 ins slot c).ok = true)
    (hasSlot : ins.slot? = some (slot, name)) (noTarget : ins.target? = none)
    (holds : HoldsSlot c slot name) :
    Stage c level (emit16 ins slot c) pending base (depth + ins.gives) scopes := by
  have ok := ok_of_emit16 isOk
  have notAdd : ins ≠ .bin .add := by
    rintro rfl
    cases hasSlot
  have notLeave : ins ≠ .scopeLeave := by
    rintro rfl
    cases hasSlot
  unfold emit16 at isOk ⊢
  split_ifs at isOk with small
  · exact absurd isOk Bool.false_ne_true
  · rw [if_neg small, emit_of_ok ok notAdd]
    refine state.append_straight ins _ (by omega) (by omega) noTarget notLeave
      (Instr.slot_scopes hasSlot _) ?_
    intro slot' name' hasSlot'
    rw [hasSlot] at hasSlot'
    cases hasSlot'
    exact ⟨state.scopeDepth.symm.trans holds.1, holds.2⟩

theorem Stage.slot {slot : Nat} {name : Name} (ins : Instr)
    (stage : Stage origin originLevel c pending base (depth + ins.takes) scopes)
    (isOk : (emit16 ins slot c).ok = true)
    (hasSlot : ins.slot? = some (slot, name)) (noTarget : ins.target? = none)
    (holds : HoldsSlot origin slot name) :
    Stage origin originLevel (emit16 ins slot c) pending base (depth + ins.gives) scopes := by
  obtain ⟨level, state, extends_⟩ := stage
  obtain ⟨level', state', extends'⟩ :=
    state.emit_slot ins isOk hasSlot noTarget (holds.extend extends_)
  exact ⟨level', state', extends_.trans extends'⟩

/-- The effect of `f` when it starts from `c`, for code that depends on what
`c` has registered. -/
structure EffectFrom (c : BCComp) (f : Comp) (takes gives : Nat) : Prop where
  ok : (f c).ok = true → c.ok = true
  run : ∀ level pending base depth scopes,
    Levelled c level pending base (depth + takes) scopes → (f c).ok = true →
      Stage c level (f c) pending base (depth + gives) scopes

theorem Effect.of_from (effect : ∀ c, EffectFrom c f takes gives) : Effect f takes gives where
  ok := fun c => (effect c).ok
  run := fun c => (effect c).run

theorem Effect.at (effect : Effect f takes gives) (c : BCComp) : EffectFrom c f takes gives where
  ok := effect.ok c
  run := effect.run c

theorem EffectFrom.of_eq (same : f c = g c) (effect : EffectFrom c g takes gives) :
    EffectFrom c f takes gives := by
  obtain ⟨ok, run⟩ := effect
  exact ⟨same ▸ ok, same ▸ run⟩

theorem EffectFrom.seq {middle : Nat}
    (first : EffectFrom c f takes middle) (second : Effect g middle gives) :
    EffectFrom c (fun c => g (f c)) takes gives where
  ok := fun isOk => first.ok (second.ok _ isOk)
  run := by
    intro level pending base depth scopes state isOk
    exact (first.run level pending base depth scopes state (second.ok _ isOk)).run second isOk

theorem EffectFrom.slot {slot : Nat} {name : Name} (ins : Instr)
    (first : EffectFrom c f takes ins.takes)
    (hasSlot : ins.slot? = some (slot, name)) (noTarget : ins.target? = none)
    (holds : HoldsSlot c slot name) :
    EffectFrom c (fun c => emit16 ins slot (f c)) takes ins.gives where
  ok := fun isOk => first.ok (ok_of_emit16 isOk)
  run := by
    intro level pending base depth scopes state isOk
    exact (first.run level pending base depth scopes state (ok_of_emit16 isOk)).slot ins isOk
      hasSlot noTarget holds

/-- A jump keeps the code levelled, and its target waits for the level it arrives at. -/
theorem Levelled.emit_jump (ins : Instr) (next goal : Nat)
    (state : Levelled c level pending base depth scopes)
    (isOk : c.ok = true) (hasTarget : ins.target? = some 0)
    (slot : ∀ slot name, ins.slot? = some (slot, name) → HoldsSlot c slot name)
    (enough : ins.takes ≤ base + depth)
    (falls : ins.falls = true → base + next = base + depth - ins.takes + ins.gives)
    (arrives : base + goal = base + depth - ins.takes + ins.jumpGives) :
    Stage c level (emit ins c) ((here c, ⟨base + goal, scopes⟩) :: pending)
      base next scopes := by
  have notAdd : ins ≠ .bin .add := by
    rintro rfl
    cases hasTarget
  have admits : Admits c (base + depth) scopes ins ⟨base + next, scopes⟩ :=
    { enough := enough
      leave := fun isLeave => absurd isLeave (Instr.target_notLeave hasTarget)
      fallDepth := fun isFall _ => falls isFall
      fallLeast := fun isFall => (falls isFall).le
      fallScopes := fun _ => (Instr.target_scopes hasTarget _).symm
      slot := fun slot' name' hasSlot => by
        obtain ⟨closed, index⟩ := slot slot' name' hasSlot
        exact ⟨state.scopeDepth.symm.trans closed, index⟩ }
  rw [emit_of_ok isOk notAdd]
  have appended := state.append [⟨base + goal, scopes⟩] admits (by simp)
    (by
      intro level' member
      cases List.mem_singleton.mp member
      exact ⟨by rw [hasTarget]; rfl, by rw [arrives]⟩)
    state.loops
  rw [append_scopeDepth state.scopeDepth] at appended
  exact ⟨_, appended, state.append_extends ..⟩

theorem Stage.jump (ins : Instr) (next : Nat)
    (stage : Stage origin originLevel c pending base (depth + ins.takes) scopes)
    (isOk : c.ok = true) (hasTarget : ins.target? = some 0) (noSlot : ins.slot? = none)
    (falls : ins.falls = true → next = depth + ins.gives) :
    Stage origin originLevel (emit ins c)
      ((here c, ⟨base + (depth + ins.jumpGives), scopes⟩) :: pending) base next scopes :=
  stage.bind fun _ state => state.emit_jump ins next _ isOk hasTarget (by simp [noSlot])
    (by omega) (fun isFall => by have := falls isFall; omega) (by omega)

theorem Levelled.reorder {pending' : List (Nat × Level)}
    (state : Levelled c level pending base depth scopes)
    (same : ∀ jump, jump ∈ pending ↔ jump ∈ pending') :
    Levelled c level pending' base depth scopes where
  top := state.top
  scopeDepth := state.scopeDepth
  code := by
    intro pos ins fetch
    refine (state.code pos ins fetch).transport le_rfl rfl rfl id id
      (fun _ _ _ => ⟨fun _ => rfl, rfl⟩) ?_ List.prefix_rfl
    rintro (⟨goal, member⟩ | inLoop)
    · exact Or.inl ⟨goal, (same _).mp member⟩
    · exact Or.inr inLoop
  pending := fun pos goal member => state.pending pos goal ((same _).mpr member)
  loops := state.loops
  jumps := state.jumps
  ranges := state.ranges

theorem Stage.swap {first second : Nat × Level}
    (stage : Stage origin originLevel c (first :: second :: pending) base depth scopes) :
    Stage origin originLevel c (second :: first :: pending) base depth scopes := by
  obtain ⟨level, state, extends_⟩ := stage
  exact ⟨level, state.reorder fun jump => by simp only [List.mem_cons, or_left_comm], extends_⟩

theorem Levelled.patch_to {pos target : Nat} {goal : Level}
    (state : Levelled c level ((pos, goal) :: pending) base depth scopes)
    (isOk : c.ok = true) (bound : target ≤ here c) (goalLevel : level target = goal) :
    Stage c level (patch_jump_to pos target c) pending base depth scopes := by
  subst goalLevel
  exact ⟨level, state.patch isOk bound, .patch state.topFits⟩

theorem Stage.patch_here {pos : Nat}
    (stage : Stage origin originLevel c ((pos, ⟨base + depth, scopes⟩) :: pending)
      base depth scopes)
    (isOk : c.ok = true) : Stage origin originLevel (patch_here pos c) pending base depth scopes :=
  stage.bind fun _ state => state.patch_to isOk le_rfl state.top

end LRJS
