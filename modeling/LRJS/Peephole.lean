import LRJS.Undo
import LRJS.Discipline

/-!
# The `LOAD_PROP; ADD` peephole

One lemma for each helper of `cexpr`, then one induction on the size of the
tree: the compiler fuses an addition away from under a jump exactly when
`joins` says so, and otherwise compiles to code that means the same as the code
without the peephole.
-/

namespace LRJS

open List

variable {view : SlotView} {f g h : Comp} {last last' : Option Tail} {bad bad' : Bool}
variable {how how' : Tail}

theorem Fuses.cast (fuses : Fuses view f last bad) (equality : bad = bad') :
    Fuses view f last bad' :=
  equality ▸ fuses

theorem fuses_op (ins : Instr) (plain : ins.isPlain = true) (notAdd : ins ≠ .bin .add) :
    Fuses view (emit ins) (some .other) false := by
  refine fuses_emit ins (Instr.isFresh_of_none ?_ (Instr.isPlain_target plain)) notAdd ?_
  · cases ins <;> first | rfl | cases plain
  · rintro slot receiver name rfl
    cases plain

theorem silent_pool_add (entry : BCConst) (same : BCConst → Bool) :
    Silent (pool_add entry same) := by
  constructor
  · intro c
    unfold pool_add
    split
    · rfl
    · split <;> rfl
  · intro c isOk
    cases ok : c.ok with
    | true =>
      rfl
    | false =>
      simp [pool_add, ok] at isOk
  · intro c
    unfold pool_add
    split
    · exact ⟨rfl, rfl, rfl, rfl⟩
    · split <;> exact ⟨rfl, rfl, rfl, rfl⟩
  · intro c
    unfold pool_add
    change (if !c.ok then undo c else if c.pool.any same then undo c else _) = _
    split
    · rfl
    · split <;> rfl

theorem fuses_pooled (ins : Instr) {pool : Comp} (silent : Silent pool)
    (plain : ins.isPlain = true) (notAdd : ins ≠ .bin .add) :
    Fuses view (fun c => emit ins (pool c)) (some .other) false :=
  silent.fuses.seq (fuses_op ins plain notAdd)

theorem fuses_emit_eval (node : ASTNode) : Fuses view (emit_eval node true) (some .other) false :=
  .guarded (fun _ => rfl) (fuses_pooled (.evalNode node) (silent_pool_add ..) rfl nofun)

theorem fuses_emit_push_string (value : String) :
    Fuses view (emit_push_string value) (some .other) false :=
  fuses_pooled (.pushString value) (silent_pool_add ..) rfl nofun

theorem fuses_emit_push_number (value : Double) :
    Fuses view (emit_push_number value) (some .other) false := by
  unfold emit_push_number
  split
  · rename_i int _
    exact fuses_op (.pushInt32 int) rfl nofun
  · exact fuses_pooled (.pushFloat64 value) (silent_pool_add ..) rfl nofun

theorem find_of_sees {c : BCComp} (sees : slotView c = view) (name : Name) :
    find_local_slot c name = view.slot name :=
  congrFun (congrArg SlotView.slot sees) name

theorem fuses_slot (ins : Instr) (slot : Nat) (notFused : ins.isFused = false)
    (noTarget : ins.target? = none) (notAdd : ins ≠ .bin .add)
    (notRead : ∀ slot receiver name, ins ≠ .loadProp slot receiver name) :
    Fuses view (emit16 ins slot) (some .other) false :=
  (fuses_emit ins (Instr.isFresh_of_none notFused noTarget) notAdd notRead).emit16 slot

theorem fuses_emit_name_op (op : NameOp) (name : Name) :
    Fuses view (emit_name_op op name) (some .other) false := by
  have pooled : Fuses view (fun c => c |> pool_add_str name |> emit (op.instr name))
      (some .other) false :=
    fuses_pooled (op.instr name) (silent_pool_add ..) (by cases op <;> rfl)
      (by cases op <;> simp [NameOp.instr])
  cases found : view.slot name with
  | none =>
    refine pooled.of_view fun c sees => ?_
    have notFound := (find_of_sees sees name).trans found
    cases op <;> simp only [emit_name_op, notFound]
  | some slot =>
    cases op with
    | loadVar =>
      refine (fuses_slot (.loadLocal slot name) slot rfl rfl (by simp) (by simp)).of_view
        fun c sees => ?_
      simp only [emit_name_op, (find_of_sees sees name).trans found]
    | storeVar =>
      refine (fuses_slot (.storeLocal slot name) slot rfl rfl (by simp) (by simp)).of_view
        fun c sees => ?_
      simp only [emit_name_op, (find_of_sees sees name).trans found]
    | _ =>
      exact pooled

theorem fuses_cliteral (value : Literal) : Fuses view (cliteral value) (some .other) false := by
  cases value with
  | number num =>
    exact fuses_emit_push_number num
  | string str =>
    exact fuses_emit_push_string str
  | bool val =>
    cases val
    · exact fuses_op .pushFalse rfl nofun
    · exact fuses_op .pushTrue rfl nofun
  | null =>
    exact fuses_op .pushNull rfl nofun
  | undefined =>
    exact fuses_op .pushUndefined rfl nofun
  | bigint val | regexp source =>
    exact fuses_emit_eval _

theorem fuses_cthis : Fuses view cthis (some .other) false := by
  have flag : Silent fun c => { c with usesThis := true } :=
    ⟨fun _ => rfl, fun _ isOk => isOk, fun _ => ⟨rfl, rfl, rfl, rfl⟩, fun _ => rfl⟩
  exact flag.fuses.seq (fuses_op .pushThis rfl nofun)

variable {node : ASTNode}

theorem fuses_cleaf (pure : node.isPureNode = true) :
    Fuses view (cleaf node) (some .other) false := by
  cases node with
  | identifier name =>
    exact fuses_emit_name_op .loadVar name
  | this =>
    exact fuses_cthis
  | literal value =>
    exact fuses_cliteral value
  | _ =>
    cases pure

/-! ## Operators -/

theorem Fuses.bin (bop : BinOp) (fuses : Fuses view f (some how) bad) :
    Fuses view (fun c => emit (.bin bop) (f c)) (some .other)
      (bad || (bop == .add && how == .join)) := by
  by_cases isAdd : bop = .add
  · subst isAdd
    exact fuses.add
  · have operator : Fuses view (emit (.bin bop)) (some .other) false :=
      fuses_op (.bin bop) rfl fun equality => isAdd (Instr.bin.inj equality)
    exact (fuses.seq operator).cast (by simp [isAdd])

theorem fuses_shortCircuit {op : Nat → Instr} (hasTarget : (op 0).target? = some 0)
    (left : Fuses view f last bad) (right : Fuses view g (some how) bad') :
    Fuses view (shortCircuit op f g) (some how.joined) (bad || bad') :=
  left.seq (fuses_skipping hasTarget ((fuses_op .pop rfl nofun).seq right))

def elseJump (consequent : Comp) (c : BCComp) : Nat :=
  here (consequent (emit (.jumpIfFalse 0) c))

def cthen (consequent : Comp) : Comp :=
  skipping (.jumpIfFalse 0) fun c => emit (.jump 0) (consequent c)

theorem fuses_cthen (consequent : Fuses view f last bad) :
    Fuses view (cthen f) (some .other) bad := by
  have jump : Fuses view (emit (.jump 0)) (some .other) false :=
    fuses_emit (.jump 0) ⟨rfl, fun _ equality => (Option.some.inj equality).symm⟩ nofun nofun
  exact (fuses_skipping rfl (consequent.seq jump)).cast (Bool.or_false _)

/-- The jump over the alternate stands where the test of the conditional did
not jump to, and keeps its place without the peephole. -/
theorem cthen_elseJump (consequent : Fuses view f last bad) {c : BCComp} (ready : Ready view c)
    (isOk : (cthen f c).ok = true) :
    here c ≤ elseJump f c ∧ (cthen f c).code[elseJump f c]? = some (.jump 0) ∧
      ((cthen f c).orphans = [] →
        elseJump f (undo c) = unfusedAt (cthen f c).code (elseJump f c)) := by
  have test : Fuses view (emit (.jumpIfFalse 0)) (some .other) false :=
    fuses_emit (.jumpIfFalse 0) ⟨rfl, fun _ equality => (Option.some.inj equality).symm⟩
      (by simp) (by simp)
  have inner := test.seq consequent
  have okJump : (emit (.jump 0) (f (emit (.jumpIfFalse 0) c))).ok = true := by
    simpa only [cthen, skipping, patch_here, ok_patch] using isOk
  have okInner := ok_of_emit okJump
  have at_ := inner.run c ready okInner
  have jumped : emit (.jump 0) (f (emit (.jumpIfFalse 0) c)) =
      appendInstr (.jump 0) (f (emit (.jumpIfFalse 0) c)) :=
    emit_of_ok okInner (by simp)
  have patched : (cthen f c).code =
      ((f (emit (.jumpIfFalse 0) c)).code ++ [Instr.jump 0]).modify (here c)
        (Instr.setTarget (here (appendInstr (.jump 0) (f (emit (.jumpIfFalse 0) c))))) := by
    unfold cthen skipping
    dsimp only
    rw [jumped, patch_here, patch_jump_to]
    have okAppended : (appendInstr (.jump 0) (f (emit (.jumpIfFalse 0) c))).ok = true :=
      okInner
    simp only [okAppended, Bool.not_true, Bool.false_eq_true, if_false]
    rfl
  have okTest := consequent.ok _ (test.sees c ready.sees) okInner
  have longer : here c < elseJump f c := by
    have grows := (consequent.run _ ((test.run c ready okTest).ready (test.sees c ready.sees))
      okInner).grows.length_le
    exact ((test.run c ready okTest).strict rfl).trans_le grows
  refine ⟨longer.le, ?_, fun clean => ?_⟩
  · have placed : ((f (emit (.jumpIfFalse 0) c)).code ++ [Instr.jump 0])[elseJump f c]? =
        some (.jump 0) :=
      getElem?_append_here
    rw [patched, getElem?_modify, placed]
    simp [longer.ne]
  · have cleanInner : (f (emit (.jumpIfFalse 0) c)).orphans = [] := by
      have same : (cthen f c).orphans = (f (emit (.jumpIfFalse 0) c)).orphans := by
        unfold cthen skipping
        dsimp only
        rw [jumped, patch_here, patch_jump_to]
        split <;> rfl
      exact same.symm.trans clean
    have undone := at_.undo cleanInner
    change here (f (emit (.jumpIfFalse 0) (undo c))) = _
    rw [undone, here_undo, patched, unfusedAt_modify]
    exact (unfusedAt_of_initial (prefix_append _ _) (Nat.le_refl _)).symm

/-- Behind a conditional the last load is joined by a jump. -/
theorem fuses_conditional {cond consequent alternate : Comp} {bad₁ bad₂ bad₃ : Bool}
    (first : Fuses view cond last bad₁) (second : Fuses view consequent last' bad₂)
    (third : Fuses view alternate (some how) bad₃) :
    Fuses view (fun c =>
      let c := cond c
      let jfalse := here c
      let c := c |> emit (.jumpIfFalse 0) |> consequent
      let jend := here c
      c |> emit (.jump 0) |> patch_here jfalse |> alternate |> patch_here jend)
      (some how.joined) (bad₁ || (bad₂ || bad₃)) := by
  have branches := (fuses_cthen second).seq third
  refine first.seq (g := fun c => patch_here (elseJump consequent c)
    (alternate (cthen consequent c)))
    ?_
  have okBefore {c : BCComp}
      (isOk : (patch_here (elseJump consequent c) (alternate (cthen consequent c))).ok = true) :
      (alternate (cthen consequent c)).ok = true := by
    simpa only [patch_here, ok_patch] using isOk
  constructor
  · intro c sees
    have sees' := branches.sees c sees
    unfold patch_here patch_jump_to
    split
    · exact sees'
    · exact sees'
  · exact fun c sees isOk => branches.ok c sees (okBefore isOk)
  · intro c ready isOk
    have okAll := okBefore isOk
    have then_ := fuses_cthen second
    have okThen := third.ok _ (then_.sees c ready.sees) okAll
    have at_ := branches.run c ready okAll
    have rest := third.run _ ((then_.run c ready okThen).ready (then_.sees c ready.sees)) okAll
    obtain ⟨inside, placed, moved⟩ := cthen_elseJump second ready okThen
    have before := lt_here_of_getElem? placed
    have fetch : (alternate (cthen consequent c)).code[elseJump consequent c]? =
        some (.jump 0) := by
      obtain ⟨tail, equality⟩ := rest.grows
      rw [← equality, getElem?_append_left before]
      exact placed
    refine at_.patch okAll inside fetch rfl fun clean => ?_
    rw [moved (rest.orphans.mp clean).1]
    exact (unfusedAt_of_initial rest.grows before.le).symm

theorem fuses_cfactor (op : BinOp) {factors : ASTNode × ASTNode × ASTNode}
    (pure : factors.1.isPureNode = true ∧ factors.2.1.isPureNode = true ∧
      factors.2.2.isPureNode = true) : Fuses view (cfactor op factors) (some .other) false := by
  have first : Fuses view _ _ _ := fuses_cleaf pure.1
  have leaves := (first.seq (fuses_cleaf pure.2.1)).seq
    (fuses_cleaf pure.2.2)
  exact ((leaves.bin op).bin .mul).cast (by simp)

theorem fuses_cbinary {bop : BinOp} {left right : ASTNode}
    (leftFuses : Fuses view f last bad) (rightFuses : Fuses view g (some how) bad') :
    Fuses view (cbinary bop left right f g) (some .other)
      (binaryJoins bop left right bad bad' how) := by
  unfold cbinary binaryJoins
  generalize choice : (if bop = .add ∨ bop = .sub then factor? left right else none) = factors
  cases factors with
  | none =>
    exact (leftFuses.seq rightFuses).bin bop
  | some factors =>
    split at choice
    · exact fuses_cfactor bop (factor?_pure choice)
    · cases choice

/-! ## Calls -/

variable {args : List ASTNode} {cObj : Comp}

/-- A call fuses loads only where the condition says so. -/
theorem fuses_ccall {callee : ASTNode} {isOptional : Bool}
    {cCallee cProp cArgs : Comp} {inCallee inObj inProp inArgs : Bool}
    (callee_ : Fuses view cCallee (some how) inCallee)
    (obj : Fuses view cObj none inObj) (prop : Fuses view cProp none inProp)
    (args_ : Fuses view cArgs none inArgs) :
    Fuses view (ccall node callee args isOptional cCallee cObj cProp cArgs) (some .other)
      (callJoins callee args isOptional inCallee inObj inProp inArgs) := by
  have eval : Fuses view _ _ _ := fuses_emit_eval node
  have call : Fuses view (emit16 (.call args.length) args.length) (some .other) false :=
    (fuses_op (.call args.length) rfl (by simp)).emit16 _
  have plainCall : Fuses view (fun c => c |> cCallee |> cArgs
      |> emit16 (.call args.length) args.length) (some .other) (inCallee || inArgs) :=
    ((callee_.seq args_).seq call).cast (Bool.or_false _)
  have conversion (ins : Instr) (plain : ins.isPlain = true) (notAdd : ins ≠ .bin .add) :
      Fuses view (fun c => c |> cArgs |> emit ins) (some .other) inArgs :=
    (args_.seq (fuses_op ins plain notAdd)).cast (Bool.or_false _)
  unfold ccall callJoins
  dsimp only
  split
  · exact eval
  · cases plain : callee.plainMember? with
    | some name =>
      have method : Fuses view (emit16 (.callMethod name args.length) args.length)
          (some .other) false :=
        (fuses_op (.callMethod name args.length) rfl (by simp)).emit16 _
      exact (((obj.seq args_).seq (silent_pool_add ..).fuses).seq method).cast (by simp)
    | none =>
      simp only [Option.isSome_none, Bool.false_eq_true, if_false]
      split
      · have element : Fuses view (emit16 (.callElem args.length) args.length)
            (some .other) false :=
          (fuses_op (.callElem args.length) rfl (by simp)).emit16 _
        exact (((obj.seq prop).seq args_).seq element).cast (Bool.or_false _)
      · split
        · exact eval
        · cases callee with
          | identifier name =>
            by_cases isImport : name = "import"
            · simp only [if_pos isImport]
              exact eval
            · simp only [if_neg isImport]
              by_cases single : args.length = 1
              · by_cases isString : name = "String"
                · simp only [isString, single, true_and, true_or, if_true]
                  exact conversion .toString rfl (by simp)
                · by_cases isNumber : name = "Number"
                  · simp only [isNumber, single, true_and, true_or, or_true, if_true]
                    exact conversion .toNumber rfl (by simp)
                  · by_cases isBoolean : name = "Boolean"
                    · simp only [isBoolean, single, true_and, or_true, if_true]
                      exact conversion .toBool rfl (by simp)
                    · simp only [isString, isNumber, isBoolean, and_false, or_self, if_false]
                      exact plainCall
              · simp only [single, false_and, if_false]
                exact plainCall
          | _ =>
            exact plainCall

theorem fuses_cnew {cCallee cArgs : Comp}
    (callee : Fuses view cCallee last bad) (args_ : Fuses view cArgs none bad') :
    Fuses view (cnew node args cCallee cArgs) (some .other)
      (!(has_spread args || args.length > 0xFFFF) && (bad || bad')) := by
  unfold cnew
  split_ifs with delegated
  · exact (fuses_emit_eval node).cast (by simp [delegated])
  · have construct : Fuses view (emit16 (.new args.length) args.length) (some .other) false :=
      (fuses_op (.new args.length) rfl nofun).emit16 _
    exact ((callee.seq args_).seq construct).cast (by simp [delegated])

/-! ## Assignments -/

variable {cVal : Comp}

theorem fuses_cassignName {name : Name} {val : ASTNode} {cValRight : Comp}
    (value : Fuses view cVal (some how) bad) (right : Fuses view cValRight none bad') :
    Fuses view (cassignName name val cVal cValRight) (some .other)
      (assignNameJoins view name val bad bad') := by
  have stored : Fuses view (fun c => c |> cVal |> emit .dup |> emit_name_op .storeVar name)
      (some .other) bad :=
    ((value.seq (fuses_op .dup rfl
      (by simp))).seq (fuses_emit_name_op .storeVar name)).cast (by simp)
  cases found : view.slot name with
  | none =>
    refine (stored.cast (by simp [assignNameJoins, found])).of_view fun c sees => ?_
    simp only [cassignName, (find_of_sees sees name).trans found]
  | some slot =>
    cases self : isSelfAdd name val with
    | false =>
      refine (stored.cast (by simp [assignNameJoins, self])).of_view fun c sees => ?_
      simp only [cassignName, (find_of_sees sees name).trans found, self]
    | true =>
      have added : Fuses view (fun c => c |> cValRight |> emit16 (.addSelf slot name) slot)
          (some .other) bad' :=
        (right.seq (fuses_slot (.addSelf slot name) slot rfl rfl
          (by simp) (by simp))).cast (by simp)
      refine (added.cast (by simp [assignNameJoins, found, self])).of_view fun c sees => ?_
      simp only [cassignName, (find_of_sees sees name).trans found, self]

/-- A compound assignment to a name fuses its right operand. -/
theorem fuses_ccompoundName {name : Name} {bop : BinOp} (value : Fuses view cVal (some how) bad) :
    Fuses view (ccompoundName name bop cVal) (some .other)
      (compoundNameJoins view name bop bad how) := by
  have load : Fuses view _ _ _ := fuses_emit_name_op .loadVar name
  have sum := ((load.seq value).bin bop)
  have stored := (sum.seq (fuses_op .dup rfl (by simp))).seq (fuses_emit_name_op .storeVar name)
  have onSlot (ins : Instr) (slot : Nat) (notFused : ins.isFused = false)
      (noTarget : ins.target? = none) (notAdd : ins ≠ .bin .add)
      (notRead : ∀ slot receiver name, ins ≠ .loadProp slot receiver name) :
      Fuses view (fun c => c |> cVal |> emit16 ins slot) (some .other) bad :=
    (value.seq (fuses_slot ins slot notFused noTarget notAdd notRead)).cast (by simp)
  cases found : view.slot name with
  | none =>
    refine (stored.cast (by simp [compoundNameJoins, found])).of_view fun c sees => ?_
    simp only [ccompoundName, (find_of_sees sees name).trans found]
  | some slot =>
    cases bop with
    | add =>
      refine ((onSlot (.addSelf slot name) slot rfl rfl (by simp) (by simp)).cast
        (by simp [compoundNameJoins, found])).of_view fun c sees => ?_
      simp only [ccompoundName, (find_of_sees sees name).trans found]
    | mul =>
      refine ((onSlot (.mulSelf slot name) slot rfl rfl (by simp) (by simp)).cast
        (by simp [compoundNameJoins, found])).of_view fun c sees => ?_
      simp only [ccompoundName, (find_of_sees sees name).trans found]
    | _ =>
      refine (stored.cast (by simp [compoundNameJoins, found])).of_view fun c sees => ?_
      simp only [ccompoundName, (find_of_sees sees name).trans found]

variable {tgt : ASTNode}

/-- An assignment fuses loads only where the condition says so. -/
theorem fuses_cassign {val : ASTNode} {op : AssignOp} {cProp cValRight : Comp}
    {inObj inProp inVal inRight : Bool}
    (obj : Fuses view cObj none inObj) (prop : Fuses view cProp none inProp)
    (value : Fuses view cVal (some how) inVal) (right : Fuses view cValRight none inRight) :
    Fuses view (cassign node op tgt val cObj cProp cVal cValRight) (some .other)
      (assignJoins view op tgt val inObj inProp inVal inRight how) := by
  have eval : Fuses view _ _ _ := fuses_emit_eval node
  have write (name : Name) : Fuses view _ _ _ := fuses_emit_name_op .setProp name
  have setElem : Fuses view (emit .setElem) (some .other) false :=
    fuses_op .setElem rfl (by simp)
  unfold cassign
  split
  · exact .of_fail (fun _ => rfl) fun _ sees => sees
  · cases op with
    | assign =>
      dsimp only [assignJoins]
      split
      · exact fuses_cassignName value right
      · cases plain : tgt.plainMember? with
        | some name =>
          exact ((obj.seq value).seq (write name)).cast (by simp)
        | none =>
          simp only [Option.isSome_none, Bool.false_eq_true, if_false]
          split_ifs with computed
          · exact (((obj.seq prop).seq value).seq setElem).cast (by simp [computed])
          · exact eval.cast (by simp [computed])
    | compound op =>
      dsimp only [assignJoins]
      cases binop_of op with
      | none =>
        exact eval
      | some bop =>
        dsimp only
        split
        · exact fuses_ccompoundName value
        · cases plain : tgt.plainMember? with
          | some name =>
            have read := (obj.seq (fuses_op .dup rfl (by simp))).seq
              (fuses_emit_name_op .getProp name)
            exact (((read.seq value).bin bop).seq (write name)).cast (by simp)
          | none =>
            simp only [Option.isSome_none, Bool.false_eq_true, if_false]
            split_ifs with computed
            · have read := ((obj.seq prop).seq (fuses_op .dup2 rfl (by simp))).seq
                (fuses_op .getElem rfl (by simp))
              exact (((read.seq value).bin bop).seq setElem).cast (by simp [computed])
            · exact eval.cast (by simp [computed])

/-! ## Increments -/

theorem fuses_cincdecName (isInc isPrefix : Bool) (name : Name) :
    Fuses view (cincdecName isInc isPrefix name) (some .other) false := by
  have store : Fuses view _ _ _ := fuses_emit_name_op .storeVar name
  have load : Fuses view _ _ _ := fuses_emit_name_op .loadVar name
  have one : Fuses view (emit (.pushInt32 1)) (some .other) false :=
    fuses_op (.pushInt32 1) rfl (by simp)
  have pop : Fuses view (emit .pop) (some .other) false :=
    fuses_op .pop rfl (by simp)
  have dup : Fuses view (emit .dup) (some .other) false :=
    fuses_op .dup rfl (by simp)
  cases isInc with
  | false =>
    have number := load.seq (fuses_op (.un .pos) rfl (by simp))
    cases isPrefix with
    | true =>
      exact ((((number.seq one).bin .sub).seq dup).seq store).cast (by simp)
    | false =>
      exact ((((number.seq dup).seq one).bin .sub).seq store).cast (by simp)
  | true =>
    cases found : view.slot name with
    | none =>
      have inc : Fuses view _ _ _ := fuses_emit_name_op .incVar name
      cases isPrefix with
      | true =>
        refine (((inc.seq pop).seq load).cast (by simp)).of_view fun c sees => ?_
        simp [cincdecName, (find_of_sees sees name).trans found]
      | false =>
        refine inc.of_view fun c sees => ?_
        simp [cincdecName, (find_of_sees sees name).trans found]
    | some slot =>
      have inc : Fuses view (emit16 (.incLocal slot name) slot) (some .other) false :=
        fuses_slot _ slot rfl rfl (by simp) (by simp)
      have read : Fuses view (emit16 (.loadLocal slot name) slot) (some .other) false :=
        fuses_slot _ slot rfl rfl (by simp) (by simp)
      cases isPrefix with
      | true =>
        refine (((inc.seq pop).seq read).cast (by simp)).of_view fun c sees => ?_
        simp [cincdecName, (find_of_sees sees name).trans found]
      | false =>
        refine inc.of_view fun c sees => ?_
        simp [cincdecName, (find_of_sees sees name).trans found]

/-- An increment of a member fuses nothing itself. -/
theorem fuses_cincdec (isInc isPrefix : Bool) {cProp : Comp} {inObj inProp : Bool}
    (obj : Fuses view cObj none inObj) (prop : Fuses view cProp none inProp) :
    Fuses view (cincdec node isInc isPrefix tgt cObj cProp) (some .other)
      (incdecJoins tgt inObj inProp) := by
  have one : Fuses view (emit (.pushInt32 1)) (some .other) false :=
    fuses_op (.pushInt32 1) rfl nofun
  have number : Fuses view (emit (.un .pos)) (some .other) false :=
    fuses_op (.un .pos) rfl nofun
  have dup2 : Fuses view (emit .dup2) (some .other) false :=
    fuses_op .dup2 rfl nofun
  have pop : Fuses view (emit .pop) (some .other) false :=
    fuses_op .pop rfl nofun
  have swap : Fuses view (emit .swap) (some .other) false :=
    fuses_op .swap rfl nofun
  have setElem : Fuses view (emit .setElem) (some .other) false :=
    fuses_op .setElem rfl nofun
  have eval : Fuses view _ _ _ := fuses_emit_eval node
  generalize aop : (if isInc then BinOp.add else BinOp.sub) = bop
  unfold cincdec
  simp only [aop]
  split
  · exact fuses_cincdecName isInc isPrefix _
  · cases plain : tgt.plainMember? with
    | some name =>
      have write : Fuses view _ _ _ := fuses_emit_name_op .setProp name
      have read := ((obj.seq (fuses_op .dup rfl nofun)).seq
        (fuses_emit_name_op .getProp name)).seq number
      dsimp only
      split
      · exact (((read.seq one).bin bop).seq write).cast (by simp [incdecJoins, plain])
      · exact ((((((read.seq dup2).seq one).bin bop).seq write).seq pop).seq swap |>.seq pop).cast
          (by simp [incdecJoins, plain])
    | none =>
      dsimp only
      split
      · rename_i computed
        have read := (((obj.seq prop).seq dup2).seq (fuses_op .getElem rfl nofun)).seq number
        split
        · exact (((read.seq one).bin bop).seq setElem).cast
            (by simp [incdecJoins, plain, computed])
        · exact (read.seq eval).cast (by simp [incdecJoins, plain, computed])
      · rename_i computed
        exact eval.cast (by simp [incdecJoins, plain, computed])

/-! ## Members and lists -/

/-- A member read ends in a load that may fuse, or in another instruction. -/
theorem fuses_cmember {obj : ASTNode} (receiver : Fuses view cObj last bad) :
    Fuses view (cmember node obj cObj) (some (if readsSlot view node obj then .read else .other))
      (node.plainMember?.isSome && !readsSlot view node obj && bad) := by
  cases plain : node.plainMember? with
  | none =>
    have notRead : readsSlot view node obj = false := by
      cases obj <;> simp [readsSlot, plain]
    rw [notRead]
    refine (fuses_emit_eval node).of_view fun c _ => ?_
    simp only [cmember, plain]
  | some prop =>
    have read : Fuses view (fun c => c |> cObj |> emit_name_op .getProp prop) (some .other) bad :=
      (receiver.seq (fuses_emit_name_op .getProp prop)).cast (by simp)
    cases obj with
    | identifier name =>
      cases fused : view.forceNoFuse with
      | true =>
        have notRead : readsSlot view node (.identifier name) = false := by
          simp [readsSlot, fused]
        rw [notRead]
        refine (read.cast (by simp)).of_view fun c sees => ?_
        have fused' : c.forceNoFuse = true :=
          (congrArg SlotView.forceNoFuse sees).trans fused
        simp [cmember, plain, fused']
      | false =>
        cases found : view.slot name with
        | none =>
          have notRead : readsSlot view node (.identifier name) = false := by
            simp [readsSlot, found]
          rw [notRead]
          refine (read.cast (by simp)).of_view fun c sees => ?_
          simp [cmember, plain, (find_of_sees sees name).trans found]
        | some slot =>
          have isRead : readsSlot view node (.identifier name) = true := by
            simp [readsSlot, plain, fused, found]
          rw [isRead]
          have load : Fuses view (emit16 (.loadProp slot name prop) slot)
              (some .read) false :=
            (fuses_emit_read slot name prop).emit16 slot
          refine (((silent_pool_add ..).fuses.seq load).cast (by simp)).of_view
            (g := fun c => c |> pool_add_str prop |> emit16 (.loadProp slot name prop) slot)
            fun c sees => ?_
          have notForced : c.forceNoFuse = false :=
            (congrArg SlotView.forceNoFuse sees).trans fused
          simp [cmember, plain, notForced, (find_of_sees sees name).trans found]
    | _ =>
      refine (read.cast (by simp [readsSlot])).of_view fun c _ => ?_
      simp only [cmember, plain]

theorem fuses_cproperty {key : ASTNode} {cKey : Comp} {inKey inVal : Bool}
    (key_ : Fuses view cKey last inKey) (value : Fuses view cVal last' inVal) :
    Fuses view (cproperty key cKey cVal) (some .other) (propertyJoins key inKey inVal) := by
  unfold cproperty propertyJoins
  split
  · exact (value.seq (fuses_emit_name_op .defProp _)).cast (Bool.or_false _)
  · exact (value.seq (fuses_emit_name_op .defProp _)).cast (Bool.or_false _)
  · exact ((key_.seq value).seq (fuses_op .defElem rfl nofun)).cast (by simp)

def FusesExpr (view : SlotView) (n : ASTNode) : Prop :=
  Fuses view (cexpr n) (some (tail view n)) (joins view n)

theorem fuses_cargs (each : ∀ arg ∈ args, FusesExpr view arg) :
    Fuses view (cargs args) none (joinsArgs view args) := by
  induction args with
  | nil =>
    exact .idle
  | cons arg args ih =>
    exact (each arg mem_cons_self).seq (ih fun other member =>
      each other (mem_cons_of_mem _ member))

theorem fuses_csequence {exprs : List ASTNode} (nonempty : exprs ≠ [])
    (each : ∀ expr ∈ exprs, FusesExpr view expr) :
    Fuses view (csequence exprs) (some (lastTail view exprs)) (joinsArgs view exprs) := by
  induction exprs with
  | nil =>
    exact absurd rfl nonempty
  | cons expr exprs ih =>
    have head := each expr mem_cons_self
    cases exprs with
    | nil =>
      exact head.cast (Bool.or_false _).symm
    | cons next exprs =>
      have rest := ih (cons_ne_nil _ _) fun other member =>
        each other (mem_cons_of_mem _ member)
      exact ((head.seq (fuses_op .pop rfl nofun)).seq rest).cast
        (by simp [joinsArgs])

theorem fuses_ctemplate {exprs : List ASTNode} (parts : List String)
    (before : Fuses view f (some .other) bad) (each : ∀ expr ∈ exprs, FusesExpr view expr) :
    Fuses view (fun c => ctemplate exprs parts (f c)) (some .other)
      (bad || joinsTemplate view exprs) := by
  induction exprs generalizing f bad parts with
  | nil =>
    exact before.cast (Bool.or_false _).symm
  | cons expr exprs ih =>
    have joined := (before.seq (each expr mem_cons_self)).add
    have others (other : ASTNode) (member : other ∈ exprs) : FusesExpr view other :=
      each other (mem_cons_of_mem _ member)
    have noJoin : (Tail.other == Tail.join) = false :=
      rfl
    unfold ctemplate
    dsimp only
    split
    · exact (ih parts.tail joined others).cast
        (by simp only [joinsTemplate, Bool.or_assoc])
    · have text := (joined.seq (fuses_emit_push_string (parts.headD ""))).add
      exact (ih parts.tail text others).cast
        (by simp only [joinsTemplate, noJoin, Bool.or_assoc, Bool.or_false])

theorem fuses_cprops {props : List ASTNode} (before : Fuses view f (some .other) bad)
    (each : ∀ key val computed shorthand, .property key val computed shorthand ∈ props →
      FusesExpr view key ∧ FusesExpr view val) :
    Fuses view (fun c => cprops props (f c)) (some .other) (bad || joinsProps view props) := by
  induction props generalizing f bad with
  | nil =>
    exact before.cast (Bool.or_false _).symm
  | cons prop props ih =>
    have others (key val : ASTNode) (computed shorthand : Bool)
        (member : .property key val computed shorthand ∈ props) :
        FusesExpr view key ∧ FusesExpr view val :=
      each key val computed shorthand (mem_cons_of_mem _ member)
    cases prop with
    | property key val computed shorthand =>
      obtain ⟨key_, value⟩ := each key val computed shorthand mem_cons_self
      exact (ih (before.seq (fuses_cproperty key_ value)) others).cast
        (by simp only [joinsProps, Bool.or_assoc])
    | _ =>
      exact ih before others

/-! ## Expressions -/

section

variable (smaller : ∀ m : ASTNode, sizeOf m < sizeOf tgt → FusesExpr view m)
include smaller

theorem fuses_cobj : Fuses view (cobj tgt) none (joinsObj view tgt) := by
  cases tgt with
  | member obj prop isOptional | computedMember obj prop =>
    exact (smaller obj (by decreasing_tactic)).forget
  | _ =>
    exact .idle

theorem fuses_cprop : Fuses view (cprop tgt) none (joinsProp view tgt) := by
  cases tgt with
  | computedMember obj prop =>
    exact (smaller prop (by decreasing_tactic)).forget
  | _ =>
    exact .idle

end

theorem fuses_cright {val : ASTNode}
    (smaller : ∀ m : ASTNode, sizeOf m < sizeOf val → FusesExpr view m) :
    Fuses view (cright val) none (joinsRight view val) := by
  cases val with
  | binary op left right =>
    exact (smaller right (by decreasing_tactic)).forget
  | _ =>
    exact .idle

/-- What an expression fuses, by induction on the syntax tree. -/
theorem fuses_cexpr (n : ASTNode) : FusesExpr view n := by
  induction size : sizeOf n using Nat.strong_induction_on generalizing n with
  | _ size_ smaller =>
  have sub (m : ASTNode) (less : sizeOf m < sizeOf n) : FusesExpr view m :=
    smaller _ (size ▸ less) m rfl
  have each (items : List ASTNode) (less : sizeOf items < sizeOf n) (item : ASTNode)
      (member : item ∈ items) : FusesExpr view item :=
    sub item ((sizeOf_lt_of_mem member).trans less)
  refine .guarded (cexpr.eq_def n) ?_
  cases n with
  | null =>
    exact fuses_op .pushUndefined rfl (by simp)
  | literal value =>
    exact fuses_cliteral value
  | identifier name =>
    exact fuses_emit_name_op .loadVar name
  | this =>
    exact fuses_cthis
  | super =>
    have flag : Silent fun c => { c with usesSuper := true } :=
      ⟨fun _ => rfl, fun _ isOk => isOk, fun _ => ⟨rfl, rfl, rfl, rfl⟩, fun _ => rfl⟩
    exact flag.fuses.seq (fuses_emit_eval .super)
  | binary op left right =>
    have leftFuses := sub left (by decreasing_tactic)
    have rightFuses := sub right (by decreasing_tactic)
    cases op with
    | andAnd | orOr | nullish =>
      exact fuses_shortCircuit rfl leftFuses rightFuses
    | _ =>
      exact fuses_cbinary leftFuses rightFuses
  | unary op isPrefix arg =>
    have argFuses := sub arg (by decreasing_tactic)
    have inner (m : ASTNode) (less : sizeOf m < sizeOf arg) : FusesExpr view m :=
      sub m (by decreasing_tactic)
    have operator (op : UnOp) :
        Fuses view (fun c => c |> cexpr arg |> emit (.un op)) (some .other) (joins view arg) :=
      (argFuses.seq (fuses_op (.un op) rfl (by simp))).cast (Bool.or_false _)
    cases op with
    | inc =>
      exact fuses_cincdec true isPrefix (fuses_cobj inner) (fuses_cprop inner)
    | dec =>
      exact fuses_cincdec false isPrefix (fuses_cobj inner) (fuses_cprop inner)
    | typeof =>
      cases arg with
      | identifier name =>
        exact fuses_emit_name_op .typeofVar name
      | _ =>
        exact operator .typeof
    | void =>
      exact operator .void
    | delete =>
      have obj := fuses_cobj inner
      have prop := fuses_cprop inner
      cases plain : arg.plainMember? with
      | some name =>
        have write : Fuses view _ _ _ := fuses_emit_name_op .deleteProp name
        simp only [plain]
        exact (obj.seq write).cast (by simp [joins, plain])
      | none =>
        simp only [plain]
        split_ifs with computed
        · exact ((obj.seq prop).seq (fuses_op .deleteElem rfl (by simp))).cast
            (by simp [joins, plain, computed])
        · exact (fuses_op .pushTrue rfl (by simp)).cast (by simp [joins, plain, computed])
    | not =>
      exact operator .not
    | bitNot =>
      exact operator .bitNot
    | minus =>
      dsimp only
      split_ifs with pre
      · exact (operator .neg).cast (by simp [joins, pre])
      · exact (fuses_emit_eval _).cast (by simp [joins, pre])
    | plus =>
      dsimp only
      split_ifs with pre
      · exact (operator .pos).cast (by simp [joins, pre])
      · exact (fuses_emit_eval _).cast (by simp [joins, pre])
  | conditional cond consequent alternate =>
    exact (fuses_conditional
      (sub cond (by decreasing_tactic))
      (sub consequent (by decreasing_tactic))
      (sub alternate (by decreasing_tactic))).cast
        (Bool.or_assoc ..).symm
  | call callee args isOptional =>
    have inner (m : ASTNode) (less : sizeOf m < sizeOf callee) : FusesExpr view m :=
      sub m (by decreasing_tactic)
    exact fuses_ccall (sub callee (by decreasing_tactic))
      (fuses_cobj inner) (fuses_cprop inner)
      (fuses_cargs (each args (by decreasing_tactic)))
  | new callee args =>
    exact fuses_cnew (sub callee (by decreasing_tactic))
      (fuses_cargs (each args (by decreasing_tactic)))
  | member obj prop isOptional =>
    exact fuses_cmember (sub obj (by decreasing_tactic))
  | computedMember obj prop =>
    have objFuses := sub obj (by decreasing_tactic)
    have propFuses := sub prop (by decreasing_tactic)
    dsimp only
    split_ifs with computed
    · exact ((objFuses.seq propFuses).seq (fuses_op .getElem rfl (by simp))).cast
        (by simp [joins, computed])
    · exact (fuses_emit_eval _).cast (by simp [joins, computed])
  | array elements =>
    have items := fuses_cargs (each elements (by decreasing_tactic))
    dsimp only
    split_ifs with delegated
    · exact (fuses_emit_eval _).cast (by simp [joins, delegated])
    · have array : Fuses view (emit16 (.newArray elements.length) elements.length)
          (some .other) false :=
        (fuses_op (.newArray elements.length) rfl (by simp)).emit16 _
      exact (items.seq array).cast (by simp [joins, delegated])
  | object props =>
    dsimp only
    split_ifs with plain
    · have equality : joins view (.object props) = joinsProps view props := by
        simp [joins, plain]
      rw [equality]
      refine fuses_cprops (fuses_op .newObject rfl (by simp)) ?_
      intro key val computed shorthand member
      have less := sizeOf_lt_of_mem member
      simp only [ASTNode.property.sizeOf_spec] at less
      exact ⟨sub key (by decreasing_tactic),
        sub val (by decreasing_tactic)⟩
    · exact (fuses_emit_eval _).cast (by simp [joins, plain])
  | assign op target value =>
    have inTarget (m : ASTNode) (less : sizeOf m < sizeOf target) : FusesExpr view m :=
      sub m (by decreasing_tactic)
    have inValue (m : ASTNode) (less : sizeOf m < sizeOf value) : FusesExpr view m :=
      sub m (by decreasing_tactic)
    exact fuses_cassign (fuses_cobj inTarget) (fuses_cprop inTarget)
      (sub value (by decreasing_tactic)) (fuses_cright inValue)
  | sequence exprs =>
    cases exprs with
    | nil =>
      exact fuses_op .pushUndefined rfl (by simp)
    | cons expr exprs =>
      exact fuses_csequence (cons_ne_nil _ _)
        (each _ (by decreasing_tactic))
  | template parts exprs =>
    exact fuses_ctemplate parts.tail (fuses_emit_push_string (parts.headD ""))
      (each exprs (by decreasing_tactic))
  | _ =>
    exact fuses_emit_eval _

/-! ## Meaning -/

abbrev exprStart (names : List Name) (disableLocalSlots forceNoFuse : Bool) : BCComp :=
  .initial names disableLocalSlots forceNoFuse

theorem supported_cexpr (n : ASTNode) (names : List Name) (disableLocalSlots forceNoFuse : Bool)
    (isOk : (cexpr n (exprStart names disableLocalSlots forceNoFuse)).ok = true)
    (noOrphans : (cexpr n (exprStart names disableLocalSlots forceNoFuse)).orphans = [])
    (noJumps : (cexpr n (exprStart names disableLocalSlots forceNoFuse)).jumps = []) :
    ∃ depthAt, depthAt 0 = 0 ∧
      Supported (cexpr n (exprStart names disableLocalSlots forceNoFuse)).code depthAt := by
  obtain ⟨level, state, extends_⟩ := (effect_cexpr n).run _ _ _ _ _ _
    (levelled_initial names disableLocalSlots forceNoFuse) isOk
  have closed : (cexpr n (exprStart names disableLocalSlots forceNoFuse)).loop = [] := by
    have loops := extends_.loops
    generalize (cexpr n (exprStart names disableLocalSlots forceNoFuse)).loop = final at loops
    cases loops
    rfl
  refine ⟨fun pos => (level pos).depth, Nat.le_zero.mp extends_.topDepth, ?_, ?_, ?_⟩
  · exact fun fetch => (state.code _ _ fetch).enough
  · exact fun fetch falls => (state.code _ _ fetch).fallLeast falls
  · intro pos ins target fetch hasTarget
    refine ((state.arrives closed fetch hasTarget).depth ⟨?_, ?_⟩).le
    · rw [noOrphans]
      exact not_mem_nil
    · rw [noJumps]
      nofun

/-- The peephole removes no `BC_ADD` that is the target of a jump, and in every run that meets each
`BC_LOAD_PROP_ADD` in a settled state the code has the outcomes of the code without it. -/
def PeepholeSound (n : ASTNode) (names : List Name) (disableLocalSlots forceNoFuse : Bool) : Prop :=
  let start := exprStart names disableLocalSlots forceNoFuse
  (cexpr n start).orphans = [] ∧
    ∀ (M : Machine) stack world, M.SettledFrom (cexpr n start).code ⟨0, stack, world⟩ →
      ∀ outcome, M.Yields (cexpr n start).code stack world outcome ↔
        M.Yields (cexpr n { start with peephole := false }).code stack world outcome

/-- `true + o.p` -/
def plainRead : ASTNode :=
  .binary .add (.literal (.bool true)) (.member (.identifier "o") (.identifier "p") false)

/-- `true + (c && o.p)` -/
def joinedRead : ASTNode :=
  .binary .add (.literal (.bool true))
    (.binary .andAnd (.identifier "c") (.member (.identifier "o") (.identifier "p") false))

/-- A machine on numbers, where zero is false and every property of a number is
the number itself. -/
def numbers : Machine where
  Value := Int
  World := List Int
  undefined := 0
  isUndefined := fun value => value == 0
  slots := id
  fault := fun _ => ⟨false, false, 0, ""⟩
  ic_hit := fun _ _ _ => none
  array_length := fun _ _ _ => none
  lr_get_property := fun world receiver _ => (receiver, world)
  ic_fill := fun world _ _ => world
  ic_fill_late := fun world _ _ => world
  bcv_add := fun world a b => (a + b, world)
  handler := fun ins cells world =>
    match ins, cells with
    | .pushTrue, _ => .next [1] world
    | .loadLocal slot _, _ => .next [world.getD slot 0] world
    | .jumpIfFalseKeep _, [value] =>
      if value = 0 then .jump [value] world else .next [value] world
    | .pop, _ => .next [] world
    | _, _ => .abort world
  get_undefined := fun _ _ => rfl
  get_length := nofun
  fill_slots := fun _ _ _ => rfl
  fill_fault := fun _ _ _ => rfl
  fill_late_slots := fun _ _ _ => rfl
  fill_late_fault := fun _ _ _ => rfl
  next_gives := by
    intro ins cells world out world' moves _
    split at moves
    · cases moves
      exact ⟨rfl, rfl⟩
    · cases moves
      exact ⟨rfl, rfl⟩
    · split at moves
      · cases moves
      · cases moves
        exact ⟨rfl, rfl⟩
    · cases moves
      exact ⟨rfl, rfl⟩
    · cases moves
  jump_gives := by
    intro ins cells world out world' moves _
    split at moves
    · cases moves
    · cases moves
    · split at moves
      · cases moves
        exact ⟨rfl, rfl⟩
      · cases moves
    · cases moves
    · cases moves

theorem numbers_settled (code : List Instr) (s : numbers.State) : numbers.SettledFrom code s := by
  intro count after leads slot receiver name fetch
  refine ⟨rfl, fun _ _ _ _ => ?_, fun _ _ => ⟨nofun, nofun⟩⟩
  exact (ite_self _).symm

end LRJS
