import LRJS.Effects

/-!
# Loops and scopes

How opening and closing a loop, leaving it by `break` or `continue`, and
opening a block scope change levels.
-/

namespace LRJS

open List Option

variable {origin c c' : BCComp} {originLevel level level' : Nat → Level}
variable {pending : List (Nat × Level)} {base depth scopes cells : Nat}

variable {loops : List BCLoop} {distance : Nat} {lp : BCLoop}

section

variable {top : Level} (loopsAt : LoopsAt c level loops top) (found : loops[distance]? = some lp)
include loopsAt found

theorem LoopsAt.get :
    lp.entry < here c ∧ (level lp.entry).scopes = lp.scopes ∧ lp.scopes ≤ top.scopes ∧
      (lp.isSwitch = true → lp.cont = []) ∧
      top.depth = ((loops.take distance).map BCLoop.cells).sum + (level lp.entry).depth := by
  induction loops generalizing top distance with
  | nil =>
    cases found
  | cons first loops ih =>
    obtain ⟨entry, entryLevel, inside, noCont, -, outer, depth, rest⟩ := loopsAt
    cases distance with
    | zero =>
      cases found
      exact ⟨entry, by rw [entryLevel], inside, noCont, by simp [entryLevel]⟩
    | succ distance =>
      obtain ⟨entry', scopes', inside', noCont', depth'⟩ := ih rest found
      refine ⟨entry', scopes', inside'.trans inside, noCont', ?_⟩
      simp only [take_succ_cons, map_cons, sum_cons]
      simp only at depth'
      omega

theorem LoopsAt.set {lp' : BCLoop}
    (extends_ : LoopExtends lp lp') (noCont : lp'.isSwitch = true → lp'.cont = [])
    (exits : ∀ pos ∈ lp'.brk ++ lp'.cont,
      pos ∈ lp.brk ++ lp.cont ∨ LoopExit c lp.entry pos) :
    LoopsAt c level (loops.set distance lp') top := by
  induction loops generalizing top distance with
  | nil =>
    cases found
  | cons first loops ih =>
    obtain ⟨entry, entryLevel, inside, switch, jumps, outer, depth, rest⟩ := loopsAt
    cases distance with
    | zero =>
      cases found
      rw [set_cons_zero, LoopsAt, extends_.entry, extends_.scopes, extends_.cells]
      refine ⟨entry, entryLevel, inside, noCont, ?_, outer, depth, rest⟩
      exact fun pos member => (exits pos member).elim (jumps pos) fun exit => exit
    | succ distance =>
      exact ⟨entry, entryLevel, inside, switch, jumps, outer, depth,
        ih rest found⟩

end

theorem loopExtends_set {lp' : BCLoop}
    (found : loops[distance]? = some lp) (extends_ : LoopExtends lp lp') :
    List.Forall₂ LoopExtends loops (loops.set distance lp') := by
  induction loops generalizing distance with
  | nil =>
    cases found
  | cons first loops ih =>
    cases distance with
    | zero =>
      cases found
      exact .cons extends_ (loopExtends_refl loops)
    | succ distance =>
      exact .cons (.refl first) (ih found)

/-- The state after a `break` or `continue` to the loop `lp`, which is
`distance` loops further out and becomes `lp'`. -/
def leaveLoop (distance : Nat) (lp lp' : BCLoop) : Comp := fun c =>
  { appendInstr (.jump 0) (recordJump distance lp c) with
    loop := c.loop.set distance lp' }

/-- A jump out of a loop waits with the others of the loop. -/
theorem Levelled.leaveLoop (lp' : BCLoop) (state : Levelled c level pending base 0 scopes)
    (found : c.loop[distance]? = some lp) (extends_ : LoopExtends lp lp')
    (noCont : lp'.isSwitch = true → lp'.cont = [])
    (jumps : ∀ pos, pos ∈ lp'.brk ++ lp'.cont ↔ pos = here c ∨ pos ∈ lp.brk ++ lp.cont) :
    Stage c level (leaveLoop distance lp lp' c) pending base 0 scopes := by
  have admits : Admits c (base + 0) scopes (.jump 0) ⟨base + 0, scopes⟩ :=
    { enough := Nat.zero_le _
      leave := nofun
      fallDepth := nofun
      fallLeast := nofun
      fallScopes := nofun
      slot := nofun }
  have appended := state.append [⟨base + 0, scopes⟩] admits (by simp)
    (by
      intro goal member
      cases mem_singleton.mp member
      exact ⟨rfl, rfl⟩)
    state.loops
  have grown := state.append_extends (.jump 0) 0
  obtain ⟨entry, entryScopes, inside, -, entryDepth⟩ := state.loops.get found
  have newHere : here (LRJS.leaveLoop distance lp lp' c) = here c + 1 :=
    here_append _
  have agrees (pos : Nat) (bound : pos ≤ here c) :
      Function.update level (here c + 1) ⟨base + 0, scopes⟩ pos = level pos :=
    Function.update_of_ne (by omega) ..
  have keepsCells (pos : Nat) :
      KeepsCells (LRJS.leaveLoop distance lp lp' c) pos →
        KeepsCells (appendInstr (.jump 0) c) pos := fun keeps =>
    ⟨keeps.1, fun record member => keeps.2 record (mem_append_left _ member)⟩
  have keepsScopes (pos : Nat) :
      KeepsScopes (LRJS.leaveLoop distance lp lp' c) pos →
        KeepsScopes (appendInstr (.jump 0) c) pos := fun keeps record member =>
    keeps record (mem_append_left _ member)
  -- the earlier exits keep their records, and the new one has its own
  have exits (entry' pos : Nat) (exit : LoopExit c entry' pos) :
      LoopExit (LRJS.leaveLoop distance lp lp' c) entry' pos := by
    obtain ⟨⟨goal, isJump⟩, ⟨record, member, atPos⟩, entries⟩ := exit
    have before := lt_here_of_getElem? isJump
    refine ⟨⟨goal, (getElem?_append_before before).trans isJump⟩,
      ⟨record, mem_append_left _ member, atPos⟩, ?_⟩
    intro other member' atPos'
    rcases mem_append.mp member' with old | new
    · exact entries other old atPos'
    · cases mem_singleton.mp new
      simp only at atPos'
      omega
  have newExit : LoopExit (LRJS.leaveLoop distance lp lp' c) lp.entry (here c) := by
    refine ⟨⟨0, getElem?_append_here⟩, ⟨_, mem_append_right _ mem_cons_self, rfl⟩, ?_⟩
    intro record member atPos
    rcases mem_append.mp member with old | new
    · obtain ⟨⟨_, isJump⟩, -⟩ := state.jumps record old
      have before := lt_here_of_getElem? isJump
      omega
    · cases mem_singleton.mp new
      rfl
  have opens (pos : Nat) (isOpen : IsOpen (appendInstr (.jump 0) c)
      ([⟨base + 0, scopes⟩].map (fun goal => (here c, goal)) ++ pending) pos) :
      IsOpen (LRJS.leaveLoop distance lp lp' c) pending pos := by
    have inTarget (inside : pos ∈ lp'.brk ++ lp'.cont) :
        IsOpen (LRJS.leaveLoop distance lp lp' c) pending pos :=
      .inr ⟨lp', List.mem_set (List.getElem?_eq_some_iff.mp found).1 _, inside⟩
    rcases isOpen with ⟨goal, member⟩ | ⟨open_, member, inside⟩
    · rcases mem_append.mp member with new | old
      · cases mem_singleton.mp new
        exact inTarget ((jumps _).mpr (.inl rfl))
      · exact .inl ⟨goal, old⟩
    · obtain ⟨index, found'⟩ := getElem?_of_mem member
      by_cases same : distance = index
      · subst same
        cases found.symm.trans found'
        exact inTarget ((jumps pos).mpr (.inr inside))
      · refine .inr ⟨open_, ?_, inside⟩
        exact mem_of_getElem? ((getElem?_set_ne same).trans found')
  refine ⟨_, ⟨appended.top, state.scopeDepth, ?_, ?_, ?_, ?_, appended.ranges⟩,
    ⟨grown.grows, grown.agrees, grown.topDepth, grown.topScopes, .rfl, rfl,
      loopExtends_set found extends_, grown.floor⟩⟩
  · intro pos ins fetch
    exact (appended.code pos ins fetch).transport le_rfl rfl rfl (keepsCells pos)
      (keepsScopes pos) (fun _ _ _ => ⟨fun _ => rfl, rfl⟩) (opens pos) prefix_rfl
  · intro pos goal member
    obtain ⟨ins, fetch, hasTarget, arrives⟩ :=
      appended.pending pos goal (mem_append_right _ member)
    exact ⟨ins, fetch, hasTarget, arrives.of_keeps rfl (keepsCells pos) (keepsScopes pos)⟩
  · refine ((state.loops.transport ?_ ?_ exits).set found extends_ noCont ?_)
    · rw [newHere]
      omega
    · exact fun pos before => agrees pos before.le
    · intro pos member
      rcases (jumps pos).mp member with rfl | old
      · exact .inr newExit
      · exact .inl old
  · intro record member
    rcases mem_append.mp member with old | new
    · exact appended.jumps record old
    · cases mem_singleton.mp new
      simp only [agrees _ le_rfl, agrees _ entry.le, state.top, entryScopes, newHere]
      simp only at entryDepth
      refine ⟨⟨0, getElem?_append_here⟩, by omega, ?_, ?_⟩
      · omega
      · rw [state.scopeDepth]
        simp only at inside
        omega

theorem emit_recordJump (distance : Nat) (lp lp' : BCLoop) (ok : c.ok = true) :
    { emit (.jump 0) (recordJump distance lp c) with
      loop := (emit (.jump 0) (recordJump distance lp c)).loop.set distance lp' } =
      leaveLoop distance lp lp' c := by
  have notAdd : Instr.jump 0 ≠ .bin .add :=
    nofun
  rw [emit_of_ok (c := recordJump distance lp c) ok notAdd]
  rfl

/-- `break` leaves no cell. -/
theorem effect_cbreak (label : Option Name) : StmtEffect (cbreak label) where
  ok := by
    intro c isOk
    unfold cbreak at isOk
    split at isOk
    · cases isOk
    · split at isOk
      · cases isOk
      · exact ok_of_emit (c := recordJump _ _ c) isOk
  run := by
    intro c level pending base scopes state isOk
    unfold cbreak at isOk ⊢
    split at isOk
    · cases isOk
    · rename_i distance _
      split at isOk
      · cases isOk
      · rename_i lp found
        have ok : c.ok = true := ok_of_emit (c := recordJump _ _ c) isOk
        obtain ⟨-, -, -, noCont, -⟩ := state.loops.get found
        simp only [emit_recordJump _ _ _ ok]
        refine state.leaveLoop _ found ⟨rfl, rfl, rfl, rfl, rfl⟩ noCont fun pos => ?_
        simp only [mem_append, mem_singleton]
        tauto

/-- `continue` leaves no cell. -/
theorem effect_ccontinue (label : Option Name) : StmtEffect (ccontinue label) where
  ok := by
    intro c isOk
    unfold ccontinue at isOk
    split at isOk
    · cases isOk
    · split at isOk
      · cases isOk
      · split at isOk
        · cases isOk
        · exact ok_of_emit (c := recordJump _ _ c) isOk
  run := by
    intro c level pending base scopes state isOk
    unfold ccontinue at isOk ⊢
    split at isOk
    · cases isOk
    · rename_i distance _
      split at isOk
      · cases isOk
      · rename_i lp found
        split_ifs at isOk with isLoop
        · cases isOk
        · have ok : c.ok = true := ok_of_emit (c := recordJump _ _ c) isOk
          rw [if_neg isLoop]
          simp only [emit_recordJump _ _ _ ok]
          refine state.leaveLoop _ found ⟨rfl, rfl, rfl, rfl, rfl⟩
            (fun isSwitch => absurd isSwitch isLoop) fun pos => ?_
          simp only [mem_append, mem_singleton]
          tauto

/-- A loop begins with no jump out of it. -/
theorem Levelled.push_loop (lp : BCLoop) {depth' : Nat}
    (state : Levelled c level pending base depth scopes)
    (entry : lp.entry < here c) (entryLevel : level lp.entry = ⟨base + lp.cells, scopes⟩)
    (sameScopes : lp.scopes = scopes) (noBrk : lp.brk = []) (noCont : lp.cont = [])
    (sameDepth : depth = lp.cells + depth') :
    Levelled { c with loop := lp :: c.loop, pendingLabel := none } level pending
      (base + lp.cells) depth' scopes where
  top := by
    rw [Nat.add_assoc, ← sameDepth]
    exact state.top
  scopeDepth := state.scopeDepth
  code := by
    intro pos ins fetch
    refine (state.code pos ins fetch).transport le_rfl rfl rfl id id
      (fun _ _ _ => ⟨fun _ => rfl, rfl⟩) ?_ prefix_rfl
    rintro (isPending | ⟨open_, member, inside⟩)
    · exact .inl isPending
    · exact .inr ⟨open_, mem_cons_of_mem _ member, inside⟩
  pending := by
    intro pos goal member
    obtain ⟨ins, fetch, hasTarget, arrives⟩ := state.pending pos goal member
    exact ⟨ins, fetch, hasTarget, arrives.of_keeps rfl id id⟩
  loops := by
    subst sameScopes
    refine ⟨entry, entryLevel, le_rfl, fun _ => noCont, by simp [noBrk, noCont], base, rfl, ?_⟩
    exact state.loops.transport le_rfl (fun _ _ => rfl) fun _ _ exit =>
      ⟨exit.isJump, exit.recorded, exit.entry⟩
  jumps := state.jumps
  ranges := state.ranges

/-- Open a loop that keeps `cells` operand cells, together with the first
instruction compiled inside it. -/
theorem Levelled.loop_enter (ins : Instr) (isSwitch : Bool) (next : Nat)
    (state : Levelled c level pending base cells scopes)
    (isOk : c.ok = true) (notAdd : ins ≠ .bin .add) (goals : List Level)
    (admits : Admits c (base + cells) scopes ins ⟨base + (cells + next), scopes⟩)
    (target : ins.target?.isSome = true → goals ≠ [])
    (arrives : ∀ goal ∈ goals, ins.target?.isSome = true ∧
      goal = ⟨base + cells - ins.takes + ins.jumpGives, scopes⟩) :
    Stage (loop_push isSwitch cells c) level (emit ins (loop_push isSwitch cells c))
      (goals.map (fun goal => (here c, goal)) ++ pending) (base + cells) next scopes := by
  have appended := state.append goals admits target arrives state.loops
  rw [append_scopeDepth state.scopeDepth] at appended
  have grown := state.append_extends ins (cells + next)
  have atEntry : Function.update level (here c + 1) ⟨base + (cells + next), scopes⟩ (here c) =
      ⟨base + cells, scopes⟩ := by
    rw [Function.update_of_ne (by omega), state.top]
  rw [emit_of_ok (c := loop_push isSwitch cells c) isOk notAdd]
  refine ⟨_, appended.push_loop
    { label := c.pendingLabel, isSwitch, brk := [], cont := [], entry := here c
      scopes := c.localScopeDepth, cells } ?_ atEntry state.scopeDepth rfl rfl rfl, ?_⟩
  · rw [here_append]
    exact Nat.lt_succ_self _
  · refine ⟨grown.grows, grown.agrees, grown.topDepth, grown.topScopes, .rfl, rfl,
      loopExtends_refl _, ?_⟩
    intro pos lower upper
    refine ⟨?_, (grown.floor pos lower upper).2⟩
    have bound : pos ≤ here c + 1 :=
      upper.trans_eq (here_append ins)
    by_cases atEnd : pos = here c + 1
    · rw [atEnd, Function.update_self]
      simp only
      omega
    · have atTop : pos = here c := by
        change here c ≤ pos at lower
        omega
      rw [atTop, atEntry]

/-- Behind a loop its jumps are pending at the level of the statement. -/
theorem Levelled.pop_loop (state : Levelled c level pending (base + lp.cells) depth scopes)
    (open_ : c.loop = lp :: loops) (sameScopes : lp.scopes = scopes) :
    Levelled { c with loop := loops } level
      ((lp.brk ++ lp.cont).map (fun pos => (pos, ⟨base + lp.cells, scopes⟩)) ++ pending)
      base (lp.cells + depth) scopes := by
  subst sameScopes
  have loopsAt := state.loops
  rw [open_] at loopsAt
  obtain ⟨entry, entryLevel, -, -, exits, outer, cells, rest⟩ := loopsAt
  have sameBase : outer = base := by
    simp only at cells
    omega
  subst sameBase
  constructor
  · rw [← Nat.add_assoc]
    exact state.top
  · exact state.scopeDepth
  · intro pos ins fetch
    refine (state.code pos ins fetch).transport le_rfl rfl rfl id id
      (fun _ _ _ => ⟨fun _ => rfl, rfl⟩) ?_ prefix_rfl
    rintro (⟨goal, member⟩ | ⟨other, member, inside⟩)
    · exact .inl ⟨goal, mem_append_right _ member⟩
    · rw [open_] at member
      rcases mem_cons.mp member with rfl | outside
      · exact .inl ⟨_, mem_append_left _ (mem_map_of_mem inside)⟩
      · exact .inr ⟨other, outside, inside⟩
  · intro pos goal member
    rcases mem_append.mp member with exit | old
    · obtain ⟨pos', inside, equality⟩ := mem_map.mp exit
      cases equality
      obtain ⟨⟨target, isJump⟩, ⟨record, recorded, atPos⟩, entries⟩ := exits pos inside
      obtain ⟨-, -, keepsCells, keepsScopes⟩ := state.jumps record recorded
      rw [atPos, entries record recorded atPos, entryLevel] at keepsCells keepsScopes
      refine ⟨.jump target, isJump, rfl, ?_, ?_⟩
      · exact fun keeps => (keepsCells (keeps.2 record recorded atPos)).symm
      · exact fun keeps => (keepsScopes (keeps record recorded atPos)).symm
    · obtain ⟨ins, fetch, hasTarget, arrives⟩ := state.pending pos goal old
      exact ⟨ins, fetch, hasTarget, arrives.of_keeps rfl id id⟩
  · exact rest.transport le_rfl (fun _ _ => rfl) fun _ _ exit =>
      ⟨exit.isJump, exit.recorded, exit.entry⟩
  · exact state.jumps
  · exact state.ranges

theorem patch_list_cons (pos target : Nat) (positions : List Nat) :
    patch_list (pos :: positions) target c =
      patch_list positions target (patch_jump_to pos target c) :=
  rfl

variable (positions : List Nat)

@[simp]
theorem ok_patch_list (target : Nat) :
    (patch_list positions target c).ok = c.ok := by
  induction positions generalizing c with
  | nil =>
    rfl
  | cons pos positions ih =>
    rw [patch_list_cons, ih, ok_patch]

@[simp]
theorem here_patch_list (target : Nat) :
    here (patch_list positions target c) = here c := by
  induction positions generalizing c with
  | nil =>
    rfl
  | cons pos positions ih =>
    rw [patch_list_cons, ih, here_patch]

theorem Levelled.patch_list {target : Nat} {goal : Level}
    (state : Levelled c level (positions.map (fun pos => (pos, goal)) ++ pending)
      base depth scopes) (isOk : c.ok = true) (bound : target ≤ here c)
    (goalLevel : level target = goal) :
    Levelled (patch_list positions target c) level pending base depth scopes ∧
      Extends base c level (patch_list positions target c) level := by
  subst goalLevel
  induction positions generalizing c with
  | nil =>
    exact ⟨state, .refl state.topFits⟩
  | cons pos positions ih =>
    obtain ⟨state', extends'⟩ := ih ((ok_patch pos target).trans isOk)
      ((here_patch pos target).symm ▸ bound) (state.patch isOk bound)
    exact ⟨state', (Extends.patch state.topFits).trans extends'⟩

theorem patch_jump_to_loop (pos target : Nat) (loops : List BCLoop) :
    { patch_jump_to pos target c with loop := loops } =
      patch_jump_to pos target { c with loop := loops } := by
  unfold patch_jump_to
  split <;> rfl

theorem patch_list_loop (target : Nat) (loops : List BCLoop) :
    { patch_list positions target c with loop := loops } =
      patch_list positions target { c with loop := loops } := by
  induction positions generalizing c with
  | nil =>
    rfl
  | cons pos positions ih =>
    rw [patch_list_cons, patch_list_cons, ih, patch_jump_to_loop]

@[simp]
theorem ok_loop_pop (breakTarget continueTarget : Nat) :
    (loop_pop breakTarget continueTarget c).ok = c.ok := by
  unfold loop_pop
  split
  · rfl
  · dsimp only
    split <;> simp

theorem Extends.top_eq (extends_ : Extends base c level c' level')
    (top : level (here c) = ⟨base, scopes⟩) : level' (here c) = ⟨base, scopes⟩ := by
  have depthBelow := extends_.topDepth
  have depthAbove := (extends_.floor (here c) le_rfl extends_.grows).1
  have sameScopes := extends_.topScopes
  rw [top] at depthBelow sameScopes
  exact congrArg₂ Level.mk (le_antisymm depthBelow depthAbove) sameScopes

/-- Close a loop whose `break` jumps go to the end of its code, and whose `continue` jumps go to its
level. -/
theorem Levelled.loop_pop (cells continueTarget : Nat) {isSwitch : Bool}
    (state : Levelled c' level' pending (base + cells) 0 scopes)
    (extends_ : Extends (base + cells) (loop_push isSwitch cells c) level c' level')
    (isOk : c'.ok = true) (scopeDepth : c.localScopeDepth = scopes)
    (continueBound : isSwitch = false → continueTarget ≤ here c')
    (continueLevel : isSwitch = false → level' continueTarget = ⟨base + cells, scopes⟩) :
    Stage c level (loop_pop (here c') continueTarget c') pending base cells scopes := by
  obtain ⟨grows, agrees, topDepth, topScopes, names, sameDepth, loops, floor⟩ := extends_
  cases opened : c'.loop with
  | nil =>
    rw [opened] at loops
    cases loops
  | cons lp rest =>
    rw [opened] at loops
    cases loops with
    | cons head tail =>
      have sameSwitch : lp.isSwitch = isSwitch := head.isSwitch
      have sameCells : lp.cells = cells := head.cells
      have sameScopes : lp.scopes = scopes := head.scopes.trans scopeDepth
      subst sameCells
      have noCont : lp.isSwitch = true → lp.cont = [] := by
        have loopsAt := state.loops
        rw [opened] at loopsAt
        exact loopsAt.2.2.2.1
      have popped := state.pop_loop opened sameScopes
      rw [map_append, append_assoc] at popped
      have outside : Extends base c level { c' with loop := rest } level' := by
        refine ⟨grows, agrees, topDepth, topScopes, names, sameDepth, tail, ?_⟩
        intro pos lower upper
        obtain ⟨cellsBelow, scopesBelow⟩ := floor pos lower upper
        exact ⟨(Nat.le_add_right _ _).trans cellsBelow, scopesBelow⟩
      obtain ⟨breaks, afterBreaks⟩ := popped.patch_list lp.brk isOk (le_refl (here c')) state.top
      simp only [LRJS.loop_pop, opened]
      cases isLoop : lp.isSwitch with
      | true =>
        rw [noCont isLoop] at breaks
        simp only [if_true, patch_list_loop]
        exact ⟨level', breaks, outside.trans afterBreaks⟩
      | false =>
        rw [isLoop] at sameSwitch
        obtain ⟨continues, afterContinues⟩ := breaks.patch_list lp.cont
          ((ok_patch_list _ _).trans isOk)
          (by rw [here_patch_list]; exact continueBound sameSwitch.symm)
          (continueLevel sameSwitch.symm)
        simp only [Bool.false_eq_true, if_false, patch_list_loop]
        exact ⟨level', continues, (outside.trans afterBreaks).trans afterContinues⟩

theorem LoopsAt.narrow {top : Level} (loopsAt : LoopsAt c level loops top)
    (inside : ∀ lp ∈ loops.head?, lp.scopes ≤ scopes) :
    LoopsAt c level loops ⟨top.depth, scopes⟩ := by
  cases loops with
  | nil =>
    trivial
  | cons lp loops =>
    obtain ⟨entry, entryLevel, -, rest⟩ := loopsAt
    exact ⟨entry, entryLevel, inside lp rfl, rest⟩

theorem Levelled.head_scopes (state : Levelled c level pending base depth scopes)
    (loops : List.Forall₂ LoopExtends c.loop c'.loop) :
    ∀ lp ∈ c'.loop.head?, lp.scopes ≤ scopes := by
  have loopsAt := state.loops
  intro lp' member
  revert loopsAt member
  generalize c.loop = before at loops
  generalize c'.loop = after at loops
  cases loops with
  | nil =>
    nofun
  | cons head tail =>
    rintro ⟨-, -, inside, -⟩ ⟨⟩
    rw [head.scopes]
    exact inside

/-- The same state, counting as many block scopes as `origin`. -/
def countedAs (origin c : BCComp) : BCComp :=
  { c with localScopeDepth := origin.localScopeDepth }

theorem Extends.countedAs (extends_ : Extends base c level c' level')
    (enough : origin.localScopeDepth ≤ c.localScopeDepth) :
    Extends base (countedAs origin c) level (countedAs origin c') level' where
  grows := extends_.grows
  agrees := extends_.agrees
  topDepth := extends_.topDepth
  topScopes := extends_.topScopes
  names := extends_.names
  scopeDepth := rfl
  loops := extends_.loops
  floor := by
    intro pos lower upper
    obtain ⟨cells, scopes⟩ := extends_.floor pos lower upper
    exact ⟨cells, enough.trans scopes⟩

/-- Entering a scope opens one more. -/
theorem Levelled.scope_enter (state : Levelled c level pending base depth scopes)
    (isOk : c.ok = true) :
    ∃ level', Levelled (scope_enter c) level' pending base depth (scopes + 1) ∧
      Extends base c level (LRJS.countedAs c (scope_enter c)) level' := by
  have admits : Admits c (base + depth) scopes .scopeEnter ⟨base + depth, scopes + 1⟩ :=
    { enough := Nat.zero_le _
      leave := nofun
      fallDepth := fun _ _ => rfl
      fallLeast := fun _ => le_rfl
      fallScopes := fun _ => rfl
      slot := nofun }
  have notAdd : Instr.scopeEnter ≠ .bin .add :=
    nofun
  have code : LRJS.scope_enter c =
      { appendInstr .scopeEnter c with
        localScopeDepth := scopes + 1
        scopeOverflow := c.scopeOverflow || c.localScopeDepth ≥ 64 } := by
    refine (emit_of_ok ?_ notAdd).trans ?_
    · exact isOk
    · rw [← state.scopeDepth]
      rfl
  have appended := state.append [] admits nofun nofun (state.loops.widen (Nat.le_succ scopes))
  have grown := Extends.append .scopeEnter ⟨base + depth, scopes + 1⟩ state.topFits
    (Nat.le_add_right _ _) (state.scopeDepth.trans_le (Nat.le_succ scopes))
  rw [code]
  exact ⟨_, appended.of_same ⟨rfl, rfl, .rfl, rfl, rfl, rfl, rfl⟩,
    ⟨grown.grows, grown.agrees, grown.topDepth, grown.topScopes, grown.names, rfl, grown.loops,
      grown.floor⟩⟩

/-- Leaving a scope closes the innermost one. -/
theorem Levelled.scope_leave (state : Levelled c level pending base depth (scopes + 1))
    (isOk : c.ok = true) (heads : ∀ lp ∈ c.loop.head?, lp.scopes ≤ scopes)
    (outside : origin.localScopeDepth = scopes) :
    ∃ level', Levelled (scope_leave c) level' pending base depth scopes ∧
      Extends base (LRJS.countedAs origin c) level (scope_leave c) level' := by
  have admits : Admits c (base + depth) (scopes + 1) .scopeLeave ⟨base + depth, scopes⟩ :=
    { enough := Nat.zero_le _
      leave := fun _ => Nat.succ_pos scopes
      fallDepth := fun _ _ => rfl
      fallLeast := fun _ => le_rfl
      fallScopes := fun _ => rfl
      slot := nofun }
  have notAdd : Instr.scopeLeave ≠ .bin .add :=
    nofun
  have code : LRJS.scope_leave c =
      { appendInstr .scopeLeave c with localScopeDepth := scopes } := by
    rw [LRJS.scope_leave, emit_of_ok isOk notAdd]
    change { appendInstr .scopeLeave c with localScopeDepth := c.localScopeDepth - 1 } = _
    rw [state.scopeDepth]
    rfl
  have topFits : TopFits base (LRJS.countedAs origin c) level := by
    obtain ⟨cells, -⟩ := state.topFits
    refine ⟨cells, ?_⟩
    change origin.localScopeDepth ≤ (level (here c)).scopes
    rw [outside, state.top]
    exact Nat.le_succ scopes
  have grown := Extends.append .scopeLeave ⟨base + depth, scopes⟩ topFits
    (Nat.le_add_right _ _) outside.le
  rw [code]
  exact ⟨_, state.append [] admits nofun nofun (state.loops.narrow heads),
    ⟨grown.grows, grown.agrees, grown.topDepth, grown.topScopes, grown.names, outside.symm,
      grown.loops, grown.floor⟩⟩

theorem Levelled.block {depth' : Nat} (state : Levelled c level pending base depth scopes)
    (inner : ∀ level, Levelled (LRJS.scope_enter c) level pending base depth (scopes + 1) →
      Stage (LRJS.scope_enter c) level c' pending base depth' (scopes + 1))
    (isOk : c.ok = true) (isOk' : c'.ok = true) :
    Stage c level (LRJS.scope_leave c') pending base depth' scopes := by
  obtain ⟨level₁, state₁, extends₁⟩ := state.scope_enter isOk
  obtain ⟨level₂, state₂, extends₂⟩ := inner level₁ state₁
  have fewer : c.localScopeDepth ≤ (LRJS.scope_enter c).localScopeDepth := by
    rw [state₁.scopeDepth, state.scopeDepth]
    exact Nat.le_succ scopes
  have through := extends₁.trans (extends₂.countedAs fewer)
  obtain ⟨level₃, state₃, extends₃⟩ :=
    state₂.scope_leave isOk' (state.head_scopes through.loops) state.scopeDepth
  exact ⟨level₃, state₃, through.trans extends₃⟩

end LRJS
