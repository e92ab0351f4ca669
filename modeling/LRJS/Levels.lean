import LRJS.Control
import LRJS.Library.Tables

/-!
# Levels of compiled code

Every position of the code has the height of the operand stack and the number of open block scopes
that the compiler means it to have.  A compiler state is `Levelled` when each instruction so far
respects them, up to the jumps still to be patched and three defects: the jumps whose target
`BC_ADD` the peephole removed (`orphans`), a `break` or `continue` out of a statement that holds
cells or scopes (`jumps`), and what the delegated `a[k]++` leaves behind.
-/

namespace LRJS

structure Level where
  depth : Nat
  scopes : Nat
deriving DecidableEq, Repr

/-- The delegated postfix update of a computed member: behind `obj key n` the tree-walker pushes the
value once more. -/
def Instr.leaky : Instr → Bool
  | .evalNode (.unary .inc false arg) | .evalNode (.unary .dec false arg) =>
    arg.isComputedMember
  | _ => false

@[simp]
theorem Instr.leaky_setTarget (target : Nat) (ins : Instr) :
    (ins.setTarget target).leaky = ins.leaky := by
  cases ins <;> rfl

/-- The jump at `pos` is neither an orphan nor out of a statement with operand cells. -/
def KeepsCells (c : BCComp) (pos : Nat) : Prop :=
  pos ∉ c.orphans ∧ ∀ record ∈ c.jumps, record.pos = pos → record.cells = 0

/-- The jump at `pos` is not out of a block scope. -/
def KeepsScopes (c : BCComp) (pos : Nat) : Prop :=
  ∀ record ∈ c.jumps, record.pos = pos → record.scopes = 0

/-- The level with which the jump `ins` at `pos` arrives. -/
structure ArrivesAt
    (c : BCComp) (level : Nat → Level) (pos : Nat) (ins : Instr) (goal : Level) :
    Prop where
  depth : KeepsCells c pos → goal.depth = (level pos).depth - ins.takes + ins.jumpGives
  scopes : KeepsScopes c pos → goal.scopes = (level pos).scopes

/-- The jump at `pos` is still to be patched. -/
def IsOpen (c : BCComp) (pending : List (Nat × Level)) (pos : Nat) : Prop :=
  (∃ goal, (pos, goal) ∈ pending) ∨ ∃ lp ∈ c.loop, pos ∈ lp.brk ++ lp.cont

/-- The instruction `ins` at `pos` respects the levels. -/
structure Fits
    (c : BCComp) (level : Nat → Level) (pending : List (Nat × Level))
    (pos : Nat) (ins : Instr) : Prop where
  enough : ins.takes ≤ (level pos).depth
  leave : ins = .scopeLeave → 0 < (level pos).scopes
  fallDepth : ins.falls = true → ins.leaky = false →
    (level (pos + 1)).depth = (level pos).depth - ins.takes + ins.gives
  fallLeast : ins.falls = true →
    (level (pos + 1)).depth ≤ (level pos).depth - ins.takes + ins.gives
  fallScopes : ins.falls = true →
    (level (pos + 1)).scopes = ins.scopesAfter (level pos).scopes
  target : ∀ goal, ins.target? = some goal →
    IsOpen c pending pos ∨ (goal ≤ here c ∧ ArrivesAt c level pos ins (level goal))
  slot : ∀ slot name, ins.slot? = some (slot, name) →
    (level pos).scopes = 0 ∧ c.localNames.idxOf? name = some slot

/-- A pending jump of the open loop that was entered at `entry`. -/
structure LoopExit (c : BCComp) (entry pos : Nat) : Prop where
  isJump : ∃ target, c.code[pos]? = some (.jump target)
  recorded : ∃ record ∈ c.jumps, record.pos = pos
  entry : ∀ record ∈ c.jumps, record.pos = pos → record.entry = entry

/-- The open loops, innermost first, when a statement of the innermost one starts. -/
def LoopsAt (c : BCComp) (level : Nat → Level) : List BCLoop → Level → Prop
  | [], _ => True
  | lp :: loops, top =>
    lp.entry < here c ∧ level lp.entry = ⟨top.depth, lp.scopes⟩ ∧ lp.scopes ≤ top.scopes ∧
      (lp.isSwitch = true → lp.cont = []) ∧
      (∀ pos ∈ lp.brk ++ lp.cont, LoopExit c lp.entry pos) ∧
      ∃ outer, top.depth = outer + lp.cells ∧ LoopsAt c level loops ⟨outer, lp.scopes⟩

/-- A compiler state whose code respects `level`, with the jumps `pending`, in a statement that
started with `base` cells.  The position `here c` has `depth` cells above those and `scopes` block
scopes. -/
structure Levelled
    (c : BCComp) (level : Nat → Level) (pending : List (Nat × Level))
    (base depth scopes : Nat) : Prop where
  top : level (here c) = ⟨base + depth, scopes⟩
  scopeDepth : c.localScopeDepth = scopes
  code : ∀ pos ins, c.code[pos]? = some ins → Fits c level pending pos ins
  pending : ∀ pos goal, (pos, goal) ∈ pending →
    ∃ ins, c.code[pos]? = some ins ∧ ins.target?.isSome = true ∧
      ArrivesAt c level pos ins goal
  loops : LoopsAt c level c.loop ⟨base, scopes⟩
  jumps : ∀ record ∈ c.jumps,
    (∃ goal, c.code[record.pos]? = some (.jump goal)) ∧ record.entry < here c ∧
      (record.cells = 0 → (level record.pos).depth = (level record.entry).depth) ∧
      (record.scopes = 0 → (level record.pos).scopes = (level record.entry).scopes)
  ranges : ∀ range ∈ c.ranges,
    range.1 ≤ range.2 ∧ range.2 ≤ here c ∧
      (level range.1).scopes = (level range.2).scopes ∧
      ∀ pos, range.1 ≤ pos → pos ≤ range.2 → (level range.1).scopes ≤ (level pos).scopes

/-- `after` is `before` with more pending jumps. -/
structure LoopExtends (before after : BCLoop) : Prop where
  label : after.label = before.label
  isSwitch : after.isSwitch = before.isSwitch
  entry : after.entry = before.entry
  scopes : after.scopes = before.scopes
  cells : after.cells = before.cells

/-- What a compilation step leaves alone: the levels of earlier positions, the table of names up to
growth, the scope depth, the open loops, and the cells and scopes of the statement. -/
structure Extends
    (base : Nat) (c : BCComp) (level : Nat → Level) (c' : BCComp) (level' : Nat → Level) :
    Prop where
  grows : here c ≤ here c'
  agrees : ∀ pos < here c, level' pos = level pos
  topDepth : (level' (here c)).depth ≤ (level (here c)).depth
  topScopes : (level' (here c)).scopes = (level (here c)).scopes
  names : Tables.Grows 256 c.localNames c'.localNames
  scopeDepth : c'.localScopeDepth = c.localScopeDepth
  loops : List.Forall₂ LoopExtends c.loop c'.loop
  floor : ∀ pos, here c ≤ pos → pos ≤ here c' →
    base ≤ (level' pos).depth ∧ c.localScopeDepth ≤ (level' pos).scopes

/-- What has been compiled from `origin` on: some levels extend the given ones. -/
def Stage
    (origin : BCComp) (originLevel : Nat → Level) (c : BCComp)
    (pending : List (Nat × Level)) (base depth scopes : Nat) : Prop :=
  ∃ level, Levelled c level pending base depth scopes ∧
    Extends base origin originLevel c level

/-- `f` compiles code that pops `takes` operand cells and pushes `gives`,
anywhere inside a statement. -/
structure Effect (f : Comp) (takes gives : Nat) : Prop where
  ok : ∀ c, (f c).ok = true → c.ok = true
  run : ∀ c level pending base depth scopes,
    Levelled c level pending base (depth + takes) scopes → (f c).ok = true →
      Stage c level (f c) pending base (depth + gives) scopes

/-- `f` compiles a statement: it starts and ends with the operand cells of the
enclosing statement. -/
structure StmtEffect (f : Comp) : Prop where
  ok : ∀ c, (f c).ok = true → c.ok = true
  run : ∀ c level pending base scopes,
    Levelled c level pending base 0 scopes → (f c).ok = true →
      Stage c level (f c) pending base 0 scopes

end LRJS
