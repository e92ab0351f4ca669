import LRJS.Effects
import LRJS.Joins
import LRJS.Unfused

/-!
# Compiling without the peephole

`undo` turns a compiler state into that of the same compilation without the
peephole.  `Fuses` says of a compilation step how its code ends, that it makes
a jump an orphan exactly when the analysis says so, and that otherwise it
commutes with `undo`.
-/

namespace LRJS

open List Option Instr

def undo (c : BCComp) : BCComp :=
  { c with code := unfuse c.code, peephole := false, orphans := [] }

/-- No jump leads past `bound`. -/
def Bounded (code : List Instr) (bound : Nat) : Prop :=
  ∀ (pos : Nat) (ins : Instr) (target : Nat),
    code[pos]? = some ins → ins.target? = some target → target ≤ bound

def EndsIn (c : BCComp) : Tail → Prop
  | .other => lastLoadProp? c.code = none
  | .read => (lastLoadProp? c.code).isSome = true ∧ jumpsTo c.code (here c) = []
  | .join => (lastLoadProp? c.code).isSome = true ∧ jumpsTo c.code (here c) ≠ []

/-- A state inside an expression that sees the slots `view`. -/
structure Ready (view : SlotView) (c : BCComp) : Prop where
  sees : slotView c = view
  peephole : c.peephole = true
  bounded : Bounded c.code (here c)

/-- What `f` does to the state `c`: it ends in `last`, when that is known, and
`bad` tells whether it makes orphans. -/
structure FusesAt (f : Comp) (last : Option Tail) (bad : Bool) (c : BCComp) : Prop where
  peephole : (f c).peephole = true
  bounded : Bounded (f c).code (here (f c))
  grows : c.code <+: (f c).code
  strict : last.isSome = true → here c < here (f c)
  jumps : (f c).jumps = c.jumps
  orphans : (f c).orphans = [] ↔ c.orphans = [] ∧ bad = false
  ends : ∀ how ∈ last, EndsIn (f c) how
  undo : (f c).orphans = [] → f (undo c) = undo (f c)

/-- What `f` does to every state that sees the slots `view`. -/
structure Fuses (view : SlotView) (f : Comp) (last : Option Tail) (bad : Bool) : Prop where
  sees : ∀ c, slotView c = view → slotView (f c) = view
  ok : ∀ c, slotView c = view → (f c).ok = true → c.ok = true
  run : ∀ c, Ready view c → (f c).ok = true → FusesAt f last bad c

variable {view : SlotView} {f g : Comp} {last last' : Option Tail} {bad bad' : Bool}
variable {c : BCComp} {code : List Instr}

theorem FusesAt.ready (fuses : FusesAt f last bad c) (sees : slotView (f c) = view) :
    Ready view (f c) :=
  ⟨sees, fuses.peephole, fuses.bounded⟩

theorem FusesAt.seq (left : FusesAt f last bad c) (right : FusesAt g last' bad' (f c)) :
    FusesAt (fun c => g (f c)) last' (bad || bad') c where
  peephole := right.peephole
  bounded := right.bounded
  grows := left.grows.trans right.grows
  strict := fun isSome => left.grows.length_le.trans_lt (right.strict isSome)
  jumps := right.jumps.trans left.jumps
  orphans := by
    rw [right.orphans, left.orphans, Bool.or_eq_false_iff, and_assoc]
  ends := right.ends
  undo := by
    intro clean
    rw [left.undo (right.orphans.mp clean).1, right.undo clean]

theorem Fuses.seq (first : Fuses view f last bad) (second : Fuses view g last' bad') :
    Fuses view (fun c => g (f c)) last' (bad || bad') where
  sees := fun c sees => second.sees _ (first.sees c sees)
  ok := fun c sees isOk => first.ok c sees (second.ok _ (first.sees c sees) isOk)
  run := by
    intro c ready isOk
    have sees := first.sees c ready.sees
    have left := first.run c ready (second.ok _ sees isOk)
    exact left.seq (second.run (f c) (left.ready sees) isOk)

theorem Fuses.idle : Fuses view id none false where
  sees := fun _ sees => sees
  ok := fun _ _ isOk => isOk
  run := fun _ ready _ => ⟨ready.peephole, ready.bounded, prefix_rfl, nofun, rfl, by simp,
    nofun, fun _ => rfl⟩

theorem Fuses.forget (fuses : Fuses view f last bad) : Fuses view f none bad where
  sees := fuses.sees
  ok := fuses.ok
  run := fun c ready isOk => { fuses.run c ready isOk with
    strict := nofun
    ends := nofun }

theorem Fuses.of_fail (fails : ∀ c, (f c).ok = false)
    (sees : ∀ c, slotView c = view → slotView (f c) = view) : Fuses view f last bad where
  sees := sees
  ok := by
    intro c _ isOk
    rw [fails c] at isOk
    cases isOk
  run := by
    intro c _ isOk
    rw [fails c] at isOk
    cases isOk

theorem Fuses.of_view (same : ∀ c, slotView c = view → f c = g c)
    (fuses : Fuses view g last bad) : Fuses view f last bad where
  sees := by
    intro c sees
    rw [same c sees]
    exact fuses.sees c sees
  ok := by
    intro c sees
    rw [same c sees]
    exact fuses.ok c sees
  run := by
    intro c ready isOk
    rw [same c ready.sees] at isOk
    obtain ⟨peephole, bounded, grows, strict, jumps, orphans, ends, undone⟩
      := fuses.run c ready isOk
    have sees : slotView (LRJS.undo c) = view :=
      ready.sees
    constructor <;> rw [same c ready.sees]
    · exact peephole
    · exact bounded
    · exact grows
    · exact strict
    · exact jumps
    · exact orphans
    · exact ends
    · rw [same _ sees]
      exact undone

/-- Code that stops after a failure fuses as the code that it guards. -/
theorem Fuses.guarded (same : ∀ c, g c = if !c.ok then c else f c)
    (fuses : Fuses view f last bad) : Fuses view g last bad where
  sees := by
    intro c sees
    rw [same c]
    split
    · exact sees
    · exact fuses.sees c sees
  ok := fun _ _ isOk => (ok_of_guarded same isOk).1
  run := by
    intro c ready isOk
    obtain ⟨ok, equality⟩ := ok_of_guarded same isOk
    have undone : g (LRJS.undo c) = f (LRJS.undo c) := by
      have okUndone : (LRJS.undo c).ok = true :=
        ok
      simp [same (LRJS.undo c), okUndone]
    rw [equality] at isOk
    obtain ⟨peephole, bounded, grows, strict, jumps, orphans, ends, commutes⟩
      := fuses.run c ready isOk
    constructor <;> rw [equality]
    · exact peephole
    · exact bounded
    · exact grows
    · exact strict
    · exact jumps
    · exact orphans
    · exact ends
    · rw [undone]
      exact commutes

structure Silent (f : Comp) : Prop where
  view : ∀ c, slotView (f c) = slotView c
  ok : ∀ c, (f c).ok = true → c.ok = true
  same : ∀ c, (f c).code = c.code ∧ (f c).peephole = c.peephole ∧ (f c).jumps = c.jumps ∧
    (f c).orphans = c.orphans
  undo : ∀ c, f (undo c) = undo (f c)

theorem Silent.fuses (silent : Silent f) : Fuses view f none false where
  sees := fun c sees => (silent.view c).trans sees
  ok := fun c _ => silent.ok c
  run := by
    intro c ready _
    obtain ⟨code, peephole, jumps, orphans⟩ := silent.same c
    constructor
    · exact peephole.trans ready.peephole
    · simp only [here, code]
      exact ready.bounded
    · rw [code]
    · exact fun shape => by cases shape
    · exact jumps
    · simp [orphans]
    · exact fun _ shape => by cases shape
    · exact fun _ => silent.undo c

variable {ins : Instr}

theorem Instr.unfused_congr {move move' : Nat → Nat}
    (same : ∀ target, ins.target? = some target → move target = move' target) :
    ins.unfused move = ins.unfused move' := by
  cases plain : ins.isFused with
  | false =>
    rw [unfused_eq plain, unfused_eq plain, mapTarget_congr same]
  | true =>
    cases ins <;> first | rfl | cases plain

theorem unfuse_append (ins : Instr) (bounded : Bounded code code.length) :
    unfuse (code ++ [ins]) = unfuse code ++ ins.unfused (unfusedAt (code ++ [ins])) := by
  unfold unfuse
  rw [flatMap_append, flatMap_singleton]
  congr 1
  refine flatMap_congr fun other member => unfused_congr fun target hasTarget => ?_
  obtain ⟨pos, fetch⟩ := getElem?_of_mem member
  exact Relocation.address_append [ins] (bounded pos other target fetch hasTarget)

def Instr.IsFresh (ins : Instr) : Prop :=
  ins.isFused = false ∧ ∀ target, ins.target? = some target → target = 0

theorem Instr.isFresh_of_none (plain : ins.isFused = false)
    (noTarget : ins.target? = none) : ins.IsFresh := by
  refine ⟨plain, fun target hasTarget => ?_⟩
  rw [noTarget] at hasTarget
  cases hasTarget

theorem unfuse_append_fresh (fresh : ins.IsFresh)
    (bounded : Bounded code code.length) : unfuse (code ++ [ins]) = unfuse code ++ [ins] := by
  rw [unfuse_append ins bounded, unfused_eq fresh.1]
  congr 2
  unfold mapTarget
  split
  · rename_i target hasTarget
    cases fresh.2 target hasTarget
    cases ins <;> first | rfl | (cases hasTarget; rfl)
  · rfl

theorem bounded_append {bound : Nat} (fresh : ins.IsFresh)
    (bounded : Bounded code bound) : Bounded (code ++ [ins]) (bound + 1) := by
  intro pos other target fetch hasTarget
  rw [getElem?_append] at fetch
  split at fetch
  · exact (bounded pos other target fetch hasTarget).trans (Nat.le_succ bound)
  · rw [getElem?_singleton] at fetch
    split at fetch
    · cases fetch
      rw [fresh.2 target hasTarget]
      exact Nat.zero_le _
    · cases fetch

theorem jumpsTo_eq_nil {target : Nat} {bound : Nat} (bounded : Bounded code bound)
    (past : bound < target) : jumpsTo code target = [] := by
  unfold jumpsTo
  rw [filter_eq_nil_iff]
  intro pos _ isTarget
  simp only [decide_eq_true_eq] at isTarget
  obtain ⟨ins, fetch, hasTarget⟩ := bind_eq_some_iff.mp isTarget
  exact absurd (bounded pos ins target fetch hasTarget) (Nat.not_le.mpr past)

theorem lastLoadProp?_append_other (notRead : ∀ slot receiver name,
    ins ≠ .loadProp slot receiver name) : lastLoadProp? (code ++ [ins]) = none := by
  unfold lastLoadProp?
  rw [getLast?_concat]
  split
  · rename_i slot receiver name equality
    cases equality
    exact absurd rfl (notRead slot receiver name)
  · rfl

theorem fusesAt_append (fresh : ins.IsFresh) (ready : Ready view c)
    (appends : f c = appendInstr ins c) (appendsUndone : f (undo c) = appendInstr ins (undo c))
    (ends : ∀ how ∈ last, EndsIn (appendInstr ins c) how) : FusesAt f last false c := by
  constructor <;> rw [appends]
  · exact ready.peephole
  · rw [here_append]
    exact bounded_append fresh ready.bounded
  · exact prefix_append _ _
  · intro _
    rw [here_append]
    exact Nat.lt_succ_self _
  · rfl
  · change c.orphans = [] ↔ _
    simp
  · exact ends
  · intro _
    rw [appendsUndone]
    change { undo c with code := unfuse c.code ++ [ins] } =
      { undo c with code := unfuse (c.code ++ [ins]) }
    rw [unfuse_append_fresh fresh ready.bounded]

theorem slotView_emit (ins : Instr) (c : BCComp) : slotView (emit ins c) = slotView c := by
  unfold emit
  split
  · rfl
  · split
    · split <;> rfl
    · rfl

theorem fuses_emit (ins : Instr) (fresh : ins.IsFresh) (notAdd : ins ≠ .bin .add)
    (notRead : ∀ slot receiver name, ins ≠ .loadProp slot receiver name) :
    Fuses view (emit ins) (some .other) false where
  sees := fun c sees => (slotView_emit ins c).trans sees
  ok := fun _ _ => ok_of_emit
  run := by
    intro c ready isOk
    have ok := ok_of_emit isOk
    have okUndone : (undo c).ok = true :=
      ok
    refine fusesAt_append fresh ready (emit_of_ok ok notAdd) (emit_of_ok okUndone notAdd) ?_
    intro how isLast
    cases isLast
    exact lastLoadProp?_append_other notRead

theorem fuses_emit_read (slot : Nat) (receiver name : Name) :
    Fuses view (emit (.loadProp slot receiver name)) (some .read) false where
  sees := fun c sees => (slotView_emit _ c).trans sees
  ok := fun _ _ => ok_of_emit
  run := by
    intro c ready isOk
    have ok := ok_of_emit isOk
    have okUndone : (undo c).ok = true :=
      ok
    refine fusesAt_append (isFresh_of_none rfl rfl) ready (emit_of_ok ok nofun)
      (emit_of_ok okUndone nofun) ?_
    intro how isLast
    cases isLast
    constructor
    · simp [lastLoadProp?, appendInstr]
    · rw [here_append]
      refine jumpsTo_eq_nil ?_ (Nat.lt_succ_self (here c))
      intro pos other target fetch hasTarget
      rcases getElem?_append_cases fetch with ⟨-, fetch⟩ | ⟨-, rfl⟩
      · exact ready.bounded pos other target fetch hasTarget
      · cases hasTarget

theorem Fuses.emit16 (operand : Nat) (fuses : Fuses view (emit ins) last bad) :
    Fuses view (emit16 ins operand) last bad := by
  by_cases large : operand > 0xFFFF
  · refine .of_fail (fun c => by simp [LRJS.emit16, large, fail]) fun c sees => ?_
    simp only [LRJS.emit16, large, if_true]
    exact sees
  · have same : LRJS.emit16 ins operand = emit ins := by
      funext c
      simp [LRJS.emit16, large]
    rw [same]
    exact fuses

/-- A rewritten `BC_LOAD_PROP` stands for itself and the addition, unless a
jump arrives between them. -/
theorem undo_fuse {slot : Nat} {receiver name : Name} (ready : Ready view c)
    (found : lastLoadProp? c.code = some (slot, receiver, name))
    (noJump : jumpsTo c.code (here c) = []) :
    appendInstr (.bin .add) (undo c) = undo (fuse slot receiver name c) := by
  obtain ⟨before, equality⟩ := lastLoadProp?_eq_some found
  have bounded : Bounded before before.length := by
    intro pos ins target fetch hasTarget
    have fetchOld : c.code[pos]? = some ins := by
      rw [equality, List.getElem?_append_left (List.getElem?_eq_some_iff.mp fetch).1]
      exact fetch
    have bound := ready.bounded pos ins target fetchOld hasTarget
    have hereBefore : here c = before.length + 1 := by
      simp [here, equality]
    rcases Nat.lt_or_ge target (here c) with earlier | atEnd
    · omega
    · cases Nat.le_antisymm bound atEnd
      have member := mem_jumpsTo fetchOld hasTarget
      rw [noJump] at member
      cases member
  have read : unfuse c.code = unfuse before ++ [.loadProp slot receiver name] := by
    rw [equality]
    exact unfuse_append_fresh (isFresh_of_none rfl rfl) bounded
  have fused : unfuse (before ++ [.loadPropAdd slot receiver name]) =
      unfuse before ++ [.loadProp slot receiver name, .bin .add] :=
    unfuse_append _ bounded
  change { undo c with code := unfuse c.code ++ [bin .add] } =
    { undo c with code := unfuse (c.code.dropLast ++ [loadPropAdd slot receiver name]) }
  rw [equality, dropLast_concat, fused, ← equality, read, append_assoc]
  rfl

theorem emit_add_undo (isOk : c.ok = true) :
    emit (.bin .add) (undo c) = appendInstr (.bin .add) (undo c) := by
  have okUndone : (undo c).ok = true :=
    isOk
  unfold emit
  simp only [okUndone, Bool.not_true, Bool.false_eq_true, if_false]
  split <;> rfl

theorem emit_add (isOk : c.ok = true) (peephole : c.peephole = true) :
    emit (.bin .add) c =
      match lastLoadProp? c.code with
      | some (slot, receiver, name) => fuse slot receiver name c
      | none => appendInstr (.bin .add) c := by
  unfold emit
  simp only [isOk, peephole, Bool.not_true, Bool.false_eq_true, if_false, if_true]
  split
  · rename_i found
    rw [found]
  · rename_i noRead
    split
    · rename_i found
      exact absurd found (noRead _ _ _ rfl)
    · rfl

variable {how : Tail}

/-- The fused instruction is undone to the load and the addition. -/
theorem FusesAt.fuse {slot : Nat} {receiver name : Name}
    (fuses : FusesAt f (some how) bad c) (ready : Ready view (f c)) (isOk : (f c).ok = true)
    (found : lastLoadProp? (f c).code = some (slot, receiver, name)) :
    FusesAt (fun c => emit (.bin .add) (f c)) (some .other) (bad || how == .join) c := by
  obtain ⟨before, equality⟩ := lastLoadProp?_eq_some found
  have emitted : emit (.bin .add) (f c) = LRJS.fuse slot receiver name (f c) := by
    rw [emit_add isOk fuses.peephole, found]
  have code : (LRJS.fuse slot receiver name (f c)).code =
      before ++ [.loadPropAdd slot receiver name] := by
    simp [LRJS.fuse, equality]
  have sameHere := here_fuse found
  have longer : here c < here (f c) :=
    fuses.strict rfl
  have ends := fuses.ends how rfl
  constructor <;> rw [emitted]
  · exact fuses.peephole
  · rw [sameHere, code]
    intro pos ins target fetch hasTarget
    rw [getElem?_append] at fetch
    split_ifs at fetch with inside
    · refine fuses.bounded pos ins target ?_ hasTarget
      rw [equality, List.getElem?_append_left inside]
      exact fetch
    · rw [getElem?_singleton] at fetch
      split at fetch
      · cases fetch
        cases hasTarget
      · cases fetch
  · rw [code]
    have grows := fuses.grows
    rw [equality] at grows
    refine (prefix_of_prefix_length_le grows (prefix_append _ _) ?_).trans
      (prefix_append _ _)
    simp only [here, equality, length_append, length_singleton] at longer
    omega
  · intro _
    rw [sameHere]
    exact longer
  · exact fuses.jumps
  · change (f c).orphans ++ jumpsTo (f c).code (here (f c)) = [] ↔ _
    rw [append_eq_nil_iff, fuses.orphans, Bool.or_eq_false_iff, and_assoc]
    cases how with
    | other =>
      rw [EndsIn, found] at ends
      cases ends
    | read | join =>
      simp [ends.2]
  · intro how' isLast
    cases isLast
    exact lastLoadProp?_append_other (by simp)
  · intro clean
    obtain ⟨cleanBefore, noJump⟩ := append_eq_nil_iff.mp clean
    rw [fuses.undo cleanBefore, emit_add_undo isOk]
    exact undo_fuse ready found noJump

/-- An addition behind code that ends in a load of a property fuses. -/
theorem Fuses.add (fuses : Fuses view f (some how) bad) :
    Fuses view (fun c => emit (.bin .add) (f c)) (some .other) (bad || how == .join) where
  sees := fun c sees => (slotView_emit _ _).trans (fuses.sees c sees)
  ok := fun c sees isOk => fuses.ok c sees (ok_of_emit isOk)
  run := by
    intro c ready isOk
    have okBefore := ok_of_emit isOk
    have first := fuses.run c ready okBefore
    have middle := first.ready (fuses.sees c ready.sees)
    cases found : lastLoadProp? (f c).code with
    | some read =>
      exact first.fuse middle okBefore found
    | none =>
      have notJoin : how = .other := by
        have ends := first.ends how rfl
        cases how with
        | other =>
          rfl
        | read | join =>
          rw [EndsIn, found] at ends
          cases ends.1
      subst notJoin
      have emitted : emit (.bin .add) (f c) = appendInstr (.bin .add) (f c) := by
        rw [emit_add okBefore first.peephole, found]
      have second : FusesAt (emit (.bin .add)) (some .other) false (f c) := by
        refine fusesAt_append (isFresh_of_none rfl rfl) middle emitted (emit_add_undo okBefore) ?_
        intro how isLast
        cases isLast
        exact lastLoadProp?_append_other nofun
      exact first.seq second

variable {pos : Nat}

theorem unfusedAt_of_initial {code' : List Instr} (grows : code <+: code')
    (bound : pos ≤ code.length) : unfusedAt code' pos = unfusedAt code pos := by
  obtain ⟨tail, rfl⟩ := grows
  exact Relocation.address_append tail bound

theorem here_undo (c : BCComp) : here (undo c) = unfusedAt c.code (here c) :=
  Relocation.length_flatMap (length_unfused _)

theorem unfusedAt_modify (pos other target : Nat) :
    unfusedAt (code.modify other (Instr.setTarget target)) pos = unfusedAt code pos :=
  Relocation.address_modify other _ fun ins => width_setTarget target ins

/-- Patching a jump commutes with undoing the fusion. -/
theorem patch_undo (target : Nat) (fetch : c.code[pos]? = some ins) (plain : ins.isFused = false) :
    patch_jump_to (unfusedAt c.code pos) (unfusedAt c.code target) (undo c) =
      undo (patch_jump_to pos target c) := by
  have sameMove : unfusedAt (c.code.modify pos (setTarget target)) = unfusedAt c.code := by
    funext other
    exact unfusedAt_modify other pos target
  have changed : (ins.setTarget target).unfused (unfusedAt c.code) =
      [(ins.mapTarget (unfusedAt c.code)).setTarget (unfusedAt c.code target)] := by
    rw [unfused_eq (by rw [isFused_setTarget]; exact plain),
      mapTarget_setTarget]
  have moved : unfuse (c.code.modify pos (setTarget target)) =
      (unfuse c.code).modify (unfusedAt c.code pos)
        (setTarget (unfusedAt c.code target)) := by
    unfold unfuse
    rw [sameMove]
    exact Relocation.flatMap_modify (length_unfused _) fetch (unfused_eq plain _)
      changed
  unfold patch_jump_to
  cases ok : c.ok with
  | false =>
    have okUndone : (undo c).ok = false :=
      ok
    simp [okUndone]
  | true =>
    have okUndone : (undo c).ok = true :=
      ok
    simp only [okUndone, Bool.not_true, Bool.false_eq_true, if_false]
    simp only [undo, moved]

theorem lastLoadProp?_modify (pos target : Nat) :
    lastLoadProp? (code.modify pos (Instr.setTarget target)) = lastLoadProp? code := by
  unfold lastLoadProp?
  rw [getLast?_eq_getElem?, getLast?_eq_getElem?, length_modify,
    getElem?_modify]
  by_cases atEnd : pos = code.length - 1
  · simp only [if_pos atEnd]
    cases code[code.length - 1]? with
    | none =>
      rfl
    | some ins =>
      cases ins <;> rfl
  · simp only [if_neg atEnd]
    cases code[code.length - 1]? <;> rfl

theorem endsIn_patch (ends : EndsIn c how) (isOk : c.ok = true) (fetch : c.code[pos]? = some ins)
    (isJump : ins.target?.isSome = true) :
    EndsIn (patch_here pos c) how.joined := by
  have code : (patch_here pos c).code = c.code.modify pos (setTarget (here c)) := by
    simp [patch_here, patch_jump_to, isOk]
  have arrives : jumpsTo (patch_here pos c).code (here (patch_here pos c)) ≠ [] := by
    have fetchNew : (patch_here pos c).code[pos]? = some (ins.setTarget (here c)) := by
      rw [code, getElem?_modify_eq, fetch]
      rfl
    have hasTarget : (ins.setTarget (here c)).target? = some (here c) := by
      obtain ⟨old, equality⟩ := isSome_iff_exists.mp isJump
      rw [target?_setTarget, equality]
      rfl
    have sameHere : here (patch_here pos c) = here c := by
      simp [here, code]
    rw [sameHere]
    exact ne_nil_of_mem (mem_jumpsTo fetchNew hasTarget)
  have sameRead : lastLoadProp? (patch_here pos c).code = lastLoadProp? c.code := by
    rw [code]
    exact lastLoadProp?_modify _ _
  cases how with
  | other =>
    exact sameRead.trans ends
  | read | join =>
    exact ⟨by rw [sameRead]; exact ends.1, arrives⟩

theorem prefix_modify {before : List Instr} {change : Instr → Instr} (grows : before <+: code)
    (past : before.length ≤ pos) : before <+: code.modify pos change := by
  obtain ⟨tail, rfl⟩ := grows
  obtain ⟨offset, rfl⟩ := Nat.exists_eq_add_of_le past
  refine ⟨tail.modify offset change, ?_⟩
  exact (modifyTailIdx_add (modifyHead change) offset before tail).symm

/-- Patching a jump to the place behind commutes with undoing the fusion. -/
theorem FusesAt.patch {how : Tail} {position : BCComp → Nat} {ins : Instr}
    (fuses : FusesAt f (some how) bad c) (isOk : (f c).ok = true)
    (inside : here c ≤ position c) (fetch : (f c).code[position c]? = some ins)
    (isJump : ins.target?.isSome = true) (moved : (f c).orphans = [] →
      position (LRJS.undo c) = unfusedAt (f c).code (position c)) :
    FusesAt (fun c => patch_here (position c) (f c)) (some how.joined) bad c := by
  have patched : patch_here (position c) (f c) =
      { f c with code := (f c).code.modify (position c) (setTarget (here (f c))) } := by
    simp [patch_here, patch_jump_to, isOk]
  have sameHere : here (patch_here (position c) (f c)) = here (f c) := by
    simp [here, patched]
  have plain : ins.isFused = false := by
    cases ins <;> first | rfl | cases isJump
  constructor
  · rw [patched]
    exact fuses.peephole
  · rw [sameHere, patched]
    intro pos other target fetchOther hasTarget
    rw [getElem?_modify] at fetchOther
    obtain ⟨old, fetchOld, equality⟩ := map_eq_some_iff.mp fetchOther
    split at equality
    · subst equality
      rw [target?_setTarget] at hasTarget
      obtain ⟨-, -, equality⟩ := map_eq_some_iff.mp hasTarget
      exact equality.ge
    · subst equality
      exact fuses.bounded pos old target fetchOld hasTarget
  · rw [patched]
    exact prefix_modify fuses.grows inside
  · rw [sameHere]
    exact fuses.strict
  · rw [patched]
    exact fuses.jumps
  · rw [patched]
    exact fuses.orphans
  · intro how' isLast
    cases isLast
    exact endsIn_patch (fuses.ends how rfl) isOk fetch isJump
  · intro clean
    have cleanBefore : (f c).orphans = [] := by
      rw [patched] at clean
      exact clean
    rw [fuses.undo cleanBefore, moved cleanBefore, patch_here, here_undo]
    exact patch_undo _ fetch plain

def skipping (ins : Instr) (f : Comp) : Comp := fun c =>
  patch_here (here c) (f (emit ins c))

/-- Code that a jump may skip fuses as the code itself. -/
theorem fuses_skipping (hasTarget : ins.target? = some 0) (fuses : Fuses view f (some how) bad) :
    Fuses view (skipping ins f) (some how.joined) bad := by
  have fresh : ins.IsFresh := by
    refine ⟨by (cases ins <;> first | rfl | cases hasTarget), fun target equality => ?_⟩
    rw [hasTarget] at equality
    cases equality
    rfl
  have notAdd : ins ≠ .bin .add := by
    rintro rfl
    cases hasTarget
  have notRead (slot : Nat) (receiver name : Name) : ins ≠ .loadProp slot receiver name := by
    rintro rfl
    cases hasTarget
  have jump : Fuses view (emit ins) (some .other) false :=
    fuses_emit ins fresh notAdd notRead
  have whole := jump.seq fuses
  have okBefore {c : BCComp} (isOk : (skipping ins f c).ok = true) :
      (f (emit ins c)).ok = true := by
    simpa only [skipping, patch_here, ok_patch] using isOk
  constructor
  · intro c sees
    have sees' := whole.sees c sees
    unfold skipping patch_here patch_jump_to
    split
    · exact sees'
    · exact sees'
  · exact fun c sees isOk => whole.ok c sees (okBefore isOk)
  · intro c ready isOk
    have okAll := okBefore isOk
    have okJump := fuses.ok _ (jump.sees c ready.sees) okAll
    have at_ := whole.run c ready okAll
    have jumped := jump.run c ready okJump
    have rest := fuses.run _ (jumped.ready (jump.sees c ready.sees)) okAll
    have placed : (emit ins c).code[here c]? = some ins := by
      rw [emit_of_ok (ok_of_emit okJump) notAdd]
      exact getElem?_append_here
    refine at_.patch okAll (Nat.le_refl _) ?_ (by rw [hasTarget]; rfl) fun _ => ?_
    · obtain ⟨tail, equality⟩ := rest.grows
      rw [← equality, List.getElem?_append_left (lt_here_of_getElem? placed)]
      exact placed
    · rw [here_undo]
      exact (unfusedAt_of_initial at_.grows (Nat.le_refl _)).symm

end LRJS
