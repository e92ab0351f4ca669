import LRJS.Levels

/-!
# How emission changes levels

One rule for each primitive of the compiler: appending an instruction, the
peephole, patching a jump, growing the tables, and composition.
-/

namespace LRJS

open Function List Option Instr

variable {c c' : BCComp} {level level' : Nat → Level}
variable {pending pending' : List (Nat × Level)} {base depth scopes : Nat}

variable {pos : Nat} {ins : Instr}

theorem lt_here_of_getElem? (fetch : c.code[pos]? = some ins) : pos < here c :=
  (List.getElem?_eq_some_iff.mp fetch).1

/-- Every fact about an instruction carries over to a state that agrees with
the old one around it. -/
theorem Fits.transport (fits : Fits c level pending pos ins) (grows : here c ≤ here c')
    (levelPos : level' pos = level pos) (levelNext : level' (pos + 1) = level (pos + 1))
    (keepsCells : KeepsCells c' pos → KeepsCells c pos)
    (keepsScopes : KeepsScopes c' pos → KeepsScopes c pos)
    (levelGoal : ∀ goal, ins.target? = some goal → goal ≤ here c →
      (KeepsCells c' pos → (level' goal).depth = (level goal).depth) ∧
        (level' goal).scopes = (level goal).scopes)
    (open_ : IsOpen c pending pos → IsOpen c' pending' pos)
    (names : c.localNames <+: c'.localNames) : Fits c' level' pending' pos ins where
  enough := by
    rw [levelPos]
    exact fits.enough
  leave := by
    rw [levelPos]
    exact fits.leave
  fallDepth := by
    rw [levelPos, levelNext]
    exact fits.fallDepth
  fallLeast := by
    rw [levelPos, levelNext]
    exact fits.fallLeast
  fallScopes := by
    rw [levelPos, levelNext]
    exact fits.fallScopes
  target := by
    intro goal hasTarget
    rcases fits.target goal hasTarget with isOpen | ⟨bound, arrives⟩
    · exact .inl (open_ isOpen)
    · obtain ⟨goalDepth, goalScopes⟩ := levelGoal goal hasTarget bound
      refine .inr ⟨bound.trans grows, ⟨?_, ?_⟩⟩
      · intro keeps
        rw [goalDepth keeps, levelPos]
        exact arrives.depth (keepsCells keeps)
      · intro keeps
        rw [goalScopes, levelPos]
        exact arrives.scopes (keepsScopes keeps)
  slot := by
    intro slot name hasSlot
    obtain ⟨noScope, found⟩ := fits.slot slot name hasSlot
    exact ⟨by rw [levelPos]; exact noScope, Tables.idxOf?_of_growth found names⟩

section

variable {loops : List BCLoop} {top : Level} (loopsAt : LoopsAt c level loops top)
include loopsAt

theorem LoopsAt.transport (grows : here c ≤ here c')
    (agrees : ∀ pos < here c, level' pos = level pos)
    (exits : ∀ entry pos, LoopExit c entry pos → LoopExit c' entry pos) :
    LoopsAt c' level' loops top := by
  induction loops generalizing top with
  | nil =>
    trivial
  | cons lp loops ih =>
    obtain ⟨entry, entryLevel, scopes, switch, jumps, outer, cells, rest⟩ := loopsAt
    refine ⟨entry.trans_le grows, by rw [agrees _ entry]; exact entryLevel, scopes, switch,
      ?_, outer, cells, ?_⟩
    · intro pos member
      exact exits lp.entry pos (jumps pos member)
    · exact ih rest

theorem LoopsAt.widen (wider : top.scopes ≤ scopes) :
    LoopsAt c level loops ⟨top.depth, scopes⟩ := by
  cases loops with
  | nil =>
    trivial
  | cons lp loops =>
    obtain ⟨entry, entryLevel, inside, rest⟩ := loopsAt
    exact ⟨entry, entryLevel, inside.trans wider, rest⟩

end

/-- The fields that `Levelled` reads; the table of names may grow. -/
structure SameCode (c c' : BCComp) : Prop where
  code : c'.code = c.code
  loop : c'.loop = c.loop
  names : Tables.Grows 256 c.localNames c'.localNames
  scopeDepth : c'.localScopeDepth = c.localScopeDepth
  orphans : c'.orphans = c.orphans
  jumps : c'.jumps = c.jumps
  ranges : c'.ranges = c.ranges

theorem ArrivesAt.of_keeps {goal : Level} (arrives : ArrivesAt c level pos ins goal)
    (levelPos : level' pos = level pos) (keepsCells : KeepsCells c' pos → KeepsCells c pos)
    (keepsScopes : KeepsScopes c' pos → KeepsScopes c pos) : ArrivesAt c' level' pos ins goal := by
  constructor
  · intro keeps
    rw [levelPos]
    exact arrives.depth (keepsCells keeps)
  · intro keeps
    rw [levelPos]
    exact arrives.scopes (keepsScopes keeps)

/-- The levels depend on the code only. -/
theorem Levelled.of_same
    (state : Levelled c level pending base depth scopes) (same : SameCode c c') :
    Levelled c' level pending base depth scopes := by
  have hereSame : here c' = here c := by
    simp only [here, same.code]
  have keepsCells (pos : Nat) : KeepsCells c' pos → KeepsCells c pos := by
    simp only [KeepsCells, same.orphans, same.jumps]
    exact id
  have keepsScopes (pos : Nat) : KeepsScopes c' pos → KeepsScopes c pos := by
    simp only [KeepsScopes, same.jumps]
    exact id
  constructor
  · rw [hereSame]
    exact state.top
  · exact same.scopeDepth.trans state.scopeDepth
  · intro pos ins fetch
    rw [same.code] at fetch
    refine (state.code pos ins fetch).transport hereSame.ge rfl rfl (keepsCells pos)
      (keepsScopes pos) (fun _ _ _ => ⟨fun _ => rfl, rfl⟩) ?_ same.names.extends_
    simp only [IsOpen, same.loop]
    exact id
  · intro pos goal member
    obtain ⟨ins, fetch, hasTarget, arrives⟩ := state.pending pos goal member
    exact ⟨ins, by rw [same.code]; exact fetch, hasTarget,
      arrives.of_keeps rfl (keepsCells pos) (keepsScopes pos)⟩
  · rw [same.loop]
    refine state.loops.transport hereSame.ge (fun _ _ => rfl) ?_
    rintro entry pos ⟨isJump, recorded, entries⟩
    exact ⟨by rw [same.code]; exact isJump, by rw [same.jumps]; exact recorded,
      by rw [same.jumps]; exact entries⟩
  · rw [same.jumps, same.code, hereSame]
    exact state.jumps
  · rw [same.ranges, hereSame]
    exact state.ranges

theorem LoopExtends.refl (lp : BCLoop) : LoopExtends lp lp :=
  ⟨rfl, rfl, rfl, rfl, rfl⟩

theorem LoopExtends.trans {first second third : BCLoop}
    (left : LoopExtends first second) (right : LoopExtends second third) :
    LoopExtends first third :=
  ⟨right.label.trans left.label, right.isSwitch.trans left.isSwitch,
    right.entry.trans left.entry, right.scopes.trans left.scopes,
    right.cells.trans left.cells⟩

theorem loopExtends_refl (loops : List BCLoop) : List.Forall₂ LoopExtends loops loops := by
  induction loops with
  | nil =>
    exact .nil
  | cons lp loops ih =>
    exact .cons (.refl lp) ih

theorem loopExtends_trans {first second third : List BCLoop}
    (left : List.Forall₂ LoopExtends first second) (right : List.Forall₂ LoopExtends second third) :
    List.Forall₂ LoopExtends first third := by
  induction left generalizing third with
  | nil =>
    cases right
    exact .nil
  | cons head _ ih =>
    cases right with
    | cons head' tail' =>
      exact .cons (head.trans head') (ih tail')

/-- The levels of `here c` are those of a statement with `base` cells. -/
def TopFits (base : Nat) (c : BCComp) (level : Nat → Level) : Prop :=
  base ≤ (level (here c)).depth ∧ c.localScopeDepth ≤ (level (here c)).scopes

theorem Levelled.topFits (state : Levelled c level pending base depth scopes) :
    TopFits base c level := by
  rw [TopFits, state.top]
  exact ⟨Nat.le_add_right _ _, state.scopeDepth.le⟩

theorem Extends.of_same (same : SameCode c c') (topFits : TopFits base c level) :
    Extends base c level c' level where
  grows := by
    simp [here, same.code]
  agrees := fun _ _ => rfl
  topDepth := le_rfl
  topScopes := rfl
  names := same.names
  scopeDepth := same.scopeDepth
  loops := by
    rw [same.loop]
    exact loopExtends_refl _
  floor := by
    intro pos lower upper
    have atTop : pos = here c := by
      simp only [here, same.code] at lower upper ⊢
      omega
    rw [atTop]
    exact topFits

theorem Extends.refl (topFits : TopFits base c level) : Extends base c level c level :=
  .of_same ⟨rfl, rfl, .rfl, rfl, rfl, rfl, rfl⟩ topFits

/-- Extensions compose. -/
theorem Extends.trans {c'' : BCComp} {level'' : Nat → Level}
    (left : Extends base c level c' level') (right : Extends base c' level' c'' level'') :
    Extends base c level c'' level'' where
  grows := left.grows.trans right.grows
  agrees := by
    intro pos before
    rw [right.agrees pos (before.trans_le left.grows), left.agrees pos before]
  topDepth := by
    rcases left.grows.lt_or_eq with strict | same
    · rw [right.agrees _ strict]
      exact left.topDepth
    · have rightTop := right.topDepth
      rw [← same] at rightTop
      exact rightTop.trans left.topDepth
  topScopes := by
    rcases left.grows.lt_or_eq with strict | same
    · rw [right.agrees _ strict, left.topScopes]
    · rw [← left.topScopes, same, right.topScopes]
  names := left.names.trans right.names
  scopeDepth := right.scopeDepth.trans left.scopeDepth
  loops := loopExtends_trans left.loops right.loops
  floor := by
    intro pos lower upper
    rcases Nat.lt_or_ge pos (here c') with before | after
    · rw [right.agrees pos before]
      exact left.floor pos lower before.le
    · rw [← left.scopeDepth]
      exact right.floor pos after upper

@[simp]
theorem here_append (ins : Instr) : here (appendInstr ins c) = here c + 1 := by
  simp [here, appendInstr]

theorem getElem?_append_cases {other : Instr}
    (fetch : (appendInstr ins c).code[pos]? = some other) :
    (pos < here c ∧ c.code[pos]? = some other) ∨ (pos = here c ∧ other = ins) := by
  simp only [appendInstr, getElem?_append] at fetch
  split_ifs at fetch with before
  · exact .inl ⟨before, fetch⟩
  · rw [getElem?_singleton] at fetch
    split at fetch
    · right
      exact ⟨by simp only [here]; omega, by cases fetch; rfl⟩
    · cases fetch

theorem getElem?_append_before (before : pos < here c) :
    (appendInstr ins c).code[pos]? = c.code[pos]? := by
  exact getElem?_append_left before

theorem getElem?_append_here : (appendInstr ins c).code[here c]? = some ins := by
  simp [appendInstr, here]

/-- What an instruction must satisfy to be appended at a level, so that the next position has level
`next`. -/
structure Admits
    (c : BCComp) (depth scopes : Nat) (ins : Instr) (next : Level) : Prop where
  enough : ins.takes ≤ depth
  leave : ins = .scopeLeave → 0 < scopes
  fallDepth : ins.falls = true → ins.leaky = false →
    next.depth = depth - ins.takes + ins.gives
  fallLeast : ins.falls = true → next.depth ≤ depth - ins.takes + ins.gives
  fallScopes : ins.falls = true → next.scopes = ins.scopesAfter scopes
  slot : ∀ slot name, ins.slot? = some (slot, name) →
    scopes = 0 ∧ c.localNames.idxOf? name = some slot

/-- An instruction that the level admits extends the levels by the next place. -/
theorem Levelled.append {depth' scopes' : Nat}
    (state : Levelled c level pending base depth scopes) (goals : List Level)
    (admits : Admits c (base + depth) scopes ins ⟨base + depth', scopes'⟩)
    (target : ins.target?.isSome = true → goals ≠ [])
    (arrives : ∀ goal ∈ goals, ins.target?.isSome = true ∧
      goal = ⟨base + depth - ins.takes + ins.jumpGives, scopes⟩)
    (loops : LoopsAt c level c.loop ⟨base, scopes'⟩) :
    Levelled { appendInstr ins c with localScopeDepth := scopes' }
      (update level (here c + 1) ⟨base + depth', scopes'⟩)
      (goals.map (fun goal => (here c, goal)) ++ pending) base depth' scopes' := by
  have agrees (pos : Nat) (bound : pos ≤ here c) :
      update level (here c + 1) ⟨base + depth', scopes'⟩ pos = level pos :=
    update_of_ne (by omega) ..
  have newHere : here { appendInstr ins c with localScopeDepth := scopes' } =
      here c + 1 :=
    here_append ins
  constructor
  · rw [newHere, update_self]
  · rfl
  · intro pos other fetch
    rcases getElem?_append_cases fetch with ⟨before, fetchOld⟩ | ⟨rfl, rfl⟩
    · refine (state.code pos other fetchOld).transport (by omega) (agrees pos before.le)
        (agrees (pos + 1) before) id id ?_ ?_ prefix_rfl
      · intro goal _ bound
        rw [agrees goal bound]
        exact ⟨fun _ => rfl, rfl⟩
      · rintro (⟨goal, member⟩ | inLoop)
        · exact .inl ⟨goal, mem_append_right _ member⟩
        · exact .inr inLoop
    · have levelHere : update level (here c + 1) ⟨base + depth', scopes'⟩ (here c) =
          ⟨base + depth, scopes⟩ := by
        rw [agrees _ le_rfl, state.top]
      constructor
      · rw [levelHere]
        exact admits.enough
      · rw [levelHere]
        exact admits.leave
      · rw [levelHere, update_self]
        exact admits.fallDepth
      · rw [levelHere, update_self]
        exact admits.fallLeast
      · rw [levelHere, update_self]
        exact admits.fallScopes
      · intro goal hasTarget
        obtain ⟨first, rest, equality⟩ :=
          exists_cons_of_ne_nil (target (by rw [hasTarget]; rfl))
        exact .inl (.inl ⟨first, by simp [equality]⟩)
      · rw [levelHere]
        exact admits.slot
  · intro pos goal member
    rcases mem_append.mp member with new | old
    · obtain ⟨goal', member', equality⟩ := mem_map.mp new
      obtain ⟨hasTarget, goalLevel⟩ := arrives goal' member'
      cases goalLevel
      cases equality
      refine ⟨ins, getElem?_append_here, hasTarget, ?_, ?_⟩
      · intro _
        rw [agrees _ le_rfl, state.top]
      · intro _
        rw [agrees _ le_rfl, state.top]
    · obtain ⟨other, fetch, hasTarget, arrivesOld⟩ := state.pending pos goal old
      have before := lt_here_of_getElem? fetch
      exact ⟨other, (getElem?_append_before before).trans fetch, hasTarget,
        arrivesOld.of_keeps (agrees pos before.le) id id⟩
  · refine loops.transport (by omega) (fun pos before => agrees pos before.le) ?_
    rintro entry pos ⟨⟨goal, isJump⟩, recorded, entries⟩
    exact ⟨⟨goal, (getElem?_append_before (lt_here_of_getElem? isJump)).trans isJump⟩,
      recorded, entries⟩
  · intro record member
    obtain ⟨⟨goal, isJump⟩, entry, cells, scopes⟩ := state.jumps record member
    have pos := lt_here_of_getElem? isJump
    rw [agrees _ pos.le, agrees _ entry.le, newHere]
    exact ⟨⟨goal, (getElem?_append_before pos).trans isJump⟩, by omega, cells, scopes⟩
  · intro range member
    obtain ⟨ordered, bound, equal, floor⟩ := state.ranges range member
    rw [agrees _ (ordered.trans bound), agrees _ bound, newHere]
    refine ⟨ordered, by omega, equal, ?_⟩
    intro pos lower upper
    rw [agrees pos (upper.trans bound)]
    exact floor pos lower upper

/-- An instruction that leaves the enclosing cells and scopes extends the levels. -/
theorem Extends.append (ins : Instr) (next : Level)
    (topFits : TopFits base c level) (cells : base ≤ next.depth)
    (scopes : c.localScopeDepth ≤ next.scopes) :
    Extends base c level (appendInstr ins c) (Function.update level (here c + 1) next) := by
  have agrees (pos : Nat) (bound : pos ≤ here c) :
      update level (here c + 1) next pos = level pos :=
    update_of_ne (by omega) ..
  constructor
  · rw [here_append]
    omega
  · exact fun pos before => agrees pos before.le
  · rw [agrees _ le_rfl]
  · rw [agrees _ le_rfl]
  · exact .rfl
  · rfl
  · exact loopExtends_refl _
  · intro pos lower upper
    rw [here_append] at upper
    rcases Nat.lt_or_ge pos (here c + 1) with before | after
    · have atTop : pos = here c := by
        omega
      rw [atTop, agrees _ le_rfl]
      exact topFits
    · have atEnd : pos = here c + 1 := by
        omega
      rw [atEnd, update_self]
      exact ⟨cells, scopes⟩

theorem Levelled.append_extends (ins : Instr) (depth' : Nat)
    (state : Levelled c level pending base depth scopes) :
    Extends base c level (appendInstr ins c)
      (Function.update level (here c + 1) ⟨base + depth', scopes⟩) :=
  .append ins _ state.topFits (Nat.le_add_right _ _) state.scopeDepth.le

variable {slot : Nat} {receiver name : Name}

theorem lastLoadProp?_eq_some {code : List Instr}
    (last : lastLoadProp? code = some (slot, receiver, name)) :
    ∃ before, code = before ++ [.loadProp slot receiver name] := by
  unfold lastLoadProp? at last
  split at last
  · rename_i slot' receiver' name' equality
    cases last
    exact getLast?_eq_some_iff.mp equality
  · cases last

theorem mem_jumpsTo {code : List Instr} {target : Nat}
    (fetch : code[pos]? = some ins) (hasTarget : ins.target? = some target) :
    pos ∈ jumpsTo code target := by
  simp only [jumpsTo, mem_filter, mem_range, decide_eq_true_eq]
  refine ⟨(List.getElem?_eq_some_iff.mp fetch).1, ?_⟩
  rw [fetch]
  exact hasTarget

@[simp]
theorem here_fuse (last : lastLoadProp? c.code = some (slot, receiver, name)) :
    here (fuse slot receiver name c) = here c := by
  obtain ⟨before, equality⟩ := lastLoadProp?_eq_some last
  simp [here, fuse, equality]

section

variable (state : Levelled c level pending base (depth + 2) scopes)
    (last : lastLoadProp? c.code = some (slot, receiver, name))
include state last

/-- The rewritten `BC_LOAD_PROP` leaves one cell fewer; the jumps that were
patched to the end of the code become orphans. -/
theorem Levelled.fuse :
    Levelled (fuse slot receiver name c)
      (Function.update level (here c) ⟨base + (depth + 1), scopes⟩)
      pending base (depth + 1) scopes := by
  obtain ⟨before, code⟩ := lastLoadProp?_eq_some last
  have hereBefore : here c = before.length + 1 := by
    simp [here, code]
  have newCode : (LRJS.fuse slot receiver name c).code =
      before ++ [.loadPropAdd slot receiver name] := by
    simp [LRJS.fuse, code]
  have newHere := here_fuse last
  have agrees (pos : Nat) (bound : pos < here c) :
      update level (here c) ⟨base + (depth + 1), scopes⟩ pos = level pos :=
    update_of_ne (by omega) ..
  have scopesAgree (pos : Nat) :
      (update level (here c) ⟨base + (depth + 1), scopes⟩ pos).scopes =
        (level pos).scopes := by
    by_cases atTop : pos = here c
    · rw [atTop, update_self, state.top]
    · rw [update_of_ne atTop]
  have lastFits := state.code before.length (.loadProp slot receiver name) (by simp [code])
  have lastDepth : (level before.length).depth = base + (depth + 1) := by
    have fall := lastFits.fallDepth rfl rfl
    rw [← hereBefore, state.top] at fall
    simp only [takes, gives] at fall
    omega
  have lastScopes : (level before.length).scopes = scopes := by
    have fall := lastFits.fallScopes rfl
    rw [← hereBefore, state.top] at fall
    exact fall.symm
  have keepsCells (pos : Nat) :
      KeepsCells (LRJS.fuse slot receiver name c) pos → KeepsCells c pos := by
    rintro ⟨notOrphan, records⟩
    exact ⟨fun member => notOrphan (mem_append_left _ member), records⟩
  -- an old instruction with a jump is not the rewritten one
  have fetchNew {pos : Nat} {ins : Instr} (fetch : c.code[pos]? = some ins)
      (hasTarget : ins.target?.isSome = true) :
      (LRJS.fuse slot receiver name c).code[pos]? = some ins := by
    rw [code, getElem?_append] at fetch
    rw [newCode, getElem?_append]
    split_ifs at fetch with inside
    · rw [if_pos inside]
      exact fetch
    · rw [getElem?_singleton] at fetch
      split at fetch
      · cases fetch
        cases hasTarget
      · cases fetch
  constructor
  · rw [newHere, update_self]
  · exact state.scopeDepth
  · intro pos ins fetch
    rw [newCode, getElem?_append] at fetch
    split_ifs at fetch with inside
    · have fetchOld : c.code[pos]? = some ins := by
        rw [code, getElem?_append_left inside]
        exact fetch
      refine (state.code pos ins fetchOld).transport newHere.ge (agrees pos (by omega))
        (agrees (pos + 1) (by omega)) (keepsCells pos) id ?_ id prefix_rfl
      intro goal hasTarget bound
      refine ⟨fun keeps => ?_, scopesAgree goal⟩
      rcases bound.lt_or_eq with earlier | atTop
      · rw [agrees goal earlier]
      · subst atTop
        exact absurd (mem_append_right _ (mem_jumpsTo fetchOld hasTarget)) keeps.1
    · rw [getElem?_singleton] at fetch
      split at fetch
      · have atLast : pos = before.length := by
          omega
        cases fetch
        subst atLast
        constructor
        · rw [agrees _ (by omega), lastDepth]
          simp only [takes]
          omega
        · nofun
        · intro _ _
          rw [← hereBefore, update_self, agrees _ (by omega), lastDepth]
          simp only [takes, gives]
          omega
        · intro _
          rw [← hereBefore, update_self, agrees _ (by omega), lastDepth]
          simp only [takes, gives]
          omega
        · intro _
          rw [← hereBefore, update_self, agrees _ (by omega), lastScopes]
          rfl
        · nofun
        · intro slot' name' hasSlot
          rw [agrees _ (by omega)]
          exact lastFits.slot slot' name' hasSlot
      · cases fetch
  · intro pos goal member
    obtain ⟨ins, fetch, hasTarget, arrives⟩ := state.pending pos goal member
    exact ⟨ins, fetchNew fetch hasTarget, hasTarget,
      arrives.of_keeps (agrees pos (lt_here_of_getElem? fetch)) (keepsCells pos) id⟩
  · refine state.loops.transport newHere.ge agrees ?_
    rintro entry pos ⟨⟨goal, isJump⟩, recorded, entries⟩
    exact ⟨⟨goal, fetchNew isJump rfl⟩, recorded, entries⟩
  · intro record member
    obtain ⟨⟨goal, isJump⟩, entry, facts⟩ := state.jumps record member
    rw [agrees _ (lt_here_of_getElem? isJump), agrees _ entry, newHere]
    exact ⟨⟨goal, fetchNew isJump rfl⟩, entry, facts⟩
  · intro range member
    obtain ⟨ordered, bound, equal, floor⟩ := state.ranges range member
    refine ⟨ordered, newHere ▸ bound, ?_, ?_⟩
    · rw [scopesAgree, scopesAgree]
      exact equal
    · intro pos lower upper
      rw [scopesAgree, scopesAgree]
      exact floor pos lower upper

/-- The fusion of a load and an addition extends the levels. -/
theorem Levelled.fuse_extends :
    Extends base c level (LRJS.fuse slot receiver name c)
      (Function.update level (here c) ⟨base + (depth + 1), scopes⟩) := by
  have newHere := here_fuse last
  constructor
  · exact newHere.ge
  · exact fun pos before => update_of_ne (by omega) ..
  · rw [update_self, state.top]
    simp only
    omega
  · rw [update_self, state.top]
  · exact .rfl
  · rfl
  · exact loopExtends_refl _
  · intro pos lower upper
    have atTop : pos = here c := by
      omega
    rw [atTop, update_self]
    exact ⟨Nat.le_add_right _ _, state.scopeDepth.le⟩

end

@[simp]
theorem here_patch (pos target : Nat) : here (patch_jump_to pos target c) = here c := by
  unfold patch_jump_to
  split
  · rfl
  · simp [here]

@[simp]
theorem ok_patch (pos target : Nat) : (patch_jump_to pos target c).ok = c.ok := by
  unfold patch_jump_to
  split <;> rfl

theorem setTarget_eq_scopeLeave {target : Nat}
    (equality : ins.setTarget target = .scopeLeave) : ins = .scopeLeave := by
  cases ins <;> first | rfl | cases equality

/-- A jump that is patched to a place of its level is no longer pending. -/
theorem Levelled.patch {pos target : Nat}
    (state : Levelled c level ((pos, level target) :: pending) base depth scopes)
    (ok : c.ok = true) (bound : target ≤ here c) :
    Levelled (patch_jump_to pos target c) level pending base depth scopes := by
  have patched : patch_jump_to pos target c =
      { c with code := c.code.modify pos (setTarget target) } := by
    simp [patch_jump_to, ok]
  have fetchNew (other : Nat) : (patch_jump_to pos target c).code[other]? =
      c.code[other]?.map fun ins => if pos = other then ins.setTarget target else ins := by
    rw [patched, getElem?_modify]
    by_cases same : pos = other
    · simp [same]
    · simp [same]
  have newHere := here_patch (c := c) pos target
  have keepsCells (other : Nat) :
      KeepsCells (patch_jump_to pos target c) other → KeepsCells c other := by
    rw [patched]
    exact id
  have keepsScopes (other : Nat) :
      KeepsScopes (patch_jump_to pos target c) other → KeepsScopes c other := by
    rw [patched]
    exact id
  constructor
  · rw [newHere, state.top]
  · rw [patched]
    exact state.scopeDepth
  · intro other ins fetch
    rw [fetchNew] at fetch
    obtain ⟨old, fetchOld, equality⟩ := map_eq_some_iff.mp fetch
    have fits := state.code other old fetchOld
    by_cases same : pos = other
    · subst same
      rw [if_pos rfl] at equality
      subst equality
      obtain ⟨jump, fetchJump, hasTarget, arrives⟩ :=
        state.pending pos (level target) mem_cons_self
      rw [fetchOld] at fetchJump
      cases fetchJump
      constructor
      · rw [takes_setTarget]
        exact fits.enough
      · exact fun isLeave => fits.leave (setTarget_eq_scopeLeave isLeave)
      · simpa using fits.fallDepth
      · simpa using fits.fallLeast
      · simpa using fits.fallScopes
      · intro goal isGoal
        have goalIs : target = goal := by
          rw [target?_setTarget] at isGoal
          obtain ⟨_, _, equality⟩ := map_eq_some_iff.mp isGoal
          exact equality
        subst goalIs
        refine .inr ⟨newHere ▸ bound, ?_, ?_⟩
        · simpa using fun keeps => arrives.depth (keepsCells pos keeps)
        · exact fun keeps => arrives.scopes (keepsScopes pos keeps)
      · rw [patched]
        simpa using fits.slot
    · rw [if_neg same] at equality
      subst equality
      refine fits.transport newHere.ge rfl rfl (keepsCells other) (keepsScopes other)
        (fun _ _ _ => ⟨fun _ => rfl, rfl⟩) ?_ (by rw [patched])
      rintro (⟨goal, member⟩ | inLoop)
      · rcases mem_cons.mp member with new | old
        · cases new
          exact absurd rfl same
        · exact .inl ⟨goal, old⟩
      · rw [patched]
        exact .inr inLoop
  · intro other goal member
    obtain ⟨ins, fetch, hasTarget, arrives⟩ :=
      state.pending other goal (mem_cons_of_mem _ member)
    refine ⟨if pos = other then ins.setTarget target else ins, ?_, ?_, ?_⟩
    · rw [fetchNew, fetch]
      rfl
    · split
      · rw [target?_setTarget, isSome_map]
        exact hasTarget
      · exact hasTarget
    · refine ArrivesAt.of_keeps ?_ rfl (keepsCells other) (keepsScopes other)
      split
      · exact ⟨by simpa using arrives.depth, arrives.scopes⟩
      · exact arrives
  · rw [patched]
    refine state.loops.transport (by simp [here]) (fun _ _ => rfl) ?_
    rintro entry other ⟨⟨goal, isJump⟩, recorded, entries⟩
    refine ⟨?_, recorded, entries⟩
    have fetch := fetchNew other
    rw [patched, isJump] at fetch
    rw [fetch]
    by_cases same : pos = other
    · exact ⟨target, by simp [same, setTarget]⟩
    · exact ⟨goal, by simp [same]⟩
  · intro record member
    rw [patched] at member
    obtain ⟨⟨goal, isJump⟩, entry, facts⟩ := state.jumps record member
    refine ⟨?_, newHere.symm ▸ entry, facts⟩
    rw [fetchNew, isJump]
    by_cases same : pos = record.pos
    · exact ⟨target, by simp [same, setTarget]⟩
    · exact ⟨goal, by simp [same]⟩
  · rw [newHere, patched]
    exact state.ranges

theorem Extends.patch {pos target : Nat} (topFits : TopFits base c level) :
    Extends base c level (patch_jump_to pos target c) level := by
  unfold patch_jump_to
  split
  · exact .refl topFits
  · refine ⟨by simp [here], fun _ _ => rfl, le_rfl, rfl, .rfl, rfl,
      loopExtends_refl _, ?_⟩
    intro other lower upper
    have atTop : other = here c := by
      simp only [here, length_modify] at lower upper ⊢
      omega
    rw [atTop]
    exact topFits

end LRJS
