import LRJS.Effects

/-!
# Stack effects of the expression compiler

`cexpr` compiles every expression to code that pushes one operand cell, for
every tree and every compiler state.  One lemma for each helper, then one
induction on the size of the tree.
-/

namespace LRJS

open List Option

variable {takes gives : Nat} {f g : Comp}

theorem effect_pool_add (entry : BCConst) (same : BCConst → Bool) :
    Effect (pool_add entry same) 0 0 := by
  refine .of_same (fun c => ?_) fun c isOk => ?_
  · unfold pool_add
    split
    · exact ⟨rfl, rfl, .rfl, rfl, rfl, rfl, rfl⟩
    · split <;> exact ⟨rfl, rfl, .rfl, rfl, rfl, rfl, rfl⟩
  · cases ok : c.ok with
    | true =>
      rfl
    | false =>
      simp [pool_add, ok] at isOk

theorem effect_pool_add_str (value : String) : Effect (pool_add_str value) 0 0 :=
  effect_pool_add ..

theorem effect_pool_add_f64 (value : Double) : Effect (pool_add_f64 value) 0 0 :=
  effect_pool_add ..

theorem effect_pool_add_node : Effect pool_add_node 0 0 :=
  effect_pool_add ..

theorem effect_pooled (ins : Instr) {pool : Comp}
    (pooled : Effect pool 0 0) (plain : ins.isPlain = true) :
    Effect (fun c => emit ins (pool c)) ins.takes ins.gives := by
  have pooledAbove := pooled.above ins.takes
  rw [Nat.zero_add] at pooledAbove
  exact pooledAbove.seq (effect_emit ins plain)

theorem effect_emit_eval (node : ASTNode) : Effect (emit_eval node true) 0 1 :=
  .guarded (fun _ => rfl) (effect_pooled (.evalNode node) effect_pool_add_node rfl)

theorem effect_emit_eval_pop (node : ASTNode) : Effect (emit_eval node false) 0 0 :=
  .guarded (fun _ => rfl) (effect_pooled (.evalNodePop node) effect_pool_add_node rfl)

theorem effect_emit_push_string (value : String) : Effect (emit_push_string value) 0 1 :=
  effect_pooled (.pushString value) (effect_pool_add_str value) rfl

theorem effect_emit_push_number (value : Double) : Effect (emit_push_number value) 0 1 := by
  unfold emit_push_number
  split
  · rename_i int _
    exact effect_emit (.pushInt32 int) rfl
  · exact effect_pooled (.pushFloat64 value) (effect_pool_add_f64 value) rfl

theorem effect_emit_name_op (op : NameOp) (name : Name) :
    Effect (emit_name_op op name) (op.instr name).takes (op.instr name).gives := by
  have pooled := effect_pooled (op.instr name) (effect_pool_add_str name) (by cases op <;> rfl)
  refine .of_from fun c => ?_
  cases found : find_local_slot c name with
  | none =>
    refine (pooled.at c).of_eq ?_
    cases op <;> simp only [emit_name_op, found]
  | some slot =>
    have holds := holdsSlot_of_find found
    cases op with
    | loadVar =>
      have load := ((Effect.idle 0).at c).slot (.loadLocal slot name) rfl rfl holds
      exact load.of_eq (by simp only [emit_name_op, found, id])
    | storeVar =>
      have store := ((Effect.idle 1).at c).slot (.storeLocal slot name) rfl rfl holds
      exact store.of_eq (by simp only [emit_name_op, found, id])
    | _ =>
      exact pooled.at c

theorem effect_cliteral (value : Literal) : Effect (cliteral value) 0 1 := by
  cases value with
  | number num =>
    exact effect_emit_push_number num
  | string str =>
    exact effect_emit_push_string str
  | bool val =>
    cases val
    · exact effect_emit .pushFalse rfl
    · exact effect_emit .pushTrue rfl
  | null =>
    exact effect_emit .pushNull rfl
  | undefined =>
    exact effect_emit .pushUndefined rfl
  | bigint val | regexp source =>
    exact effect_emit_eval _

theorem effect_cthis : Effect cthis 0 1 := by
  have flag : Effect (fun c => { c with usesThis := true }) 0 0 :=
    .of_same (fun _ => ⟨rfl, rfl, .rfl, rfl, rfl, rfl, rfl⟩) fun _ isOk => isOk
  exact flag.seq (effect_emit .pushThis rfl)

variable {node : ASTNode}

theorem effect_cleaf (pure : node.isPureNode = true) : Effect (cleaf node) 0 1 := by
  cases node with
  | identifier name =>
    exact effect_emit_name_op .loadVar name
  | this =>
    exact effect_cthis
  | literal value =>
    exact effect_cliteral value
  | _ =>
    cases pure

theorem effect_shortCircuit {op : Nat → Instr}
    (hasTarget : (op 0).target? = some 0) (noSlot : (op 0).slot? = none)
    (takes : (op 0).takes = 1) (gives : (op 0).gives = 1) (jumpGives : (op 0).jumpGives = 1)
    (left : Effect f 0 1) (right : Effect g 0 1) : Effect (shortCircuit op f g) 0 1 := by
  have afterJump := (effect_emit .pop rfl).seq right
  have okChain {c : BCComp} (isOk : (shortCircuit op f g c).ok = true) :
      (g (emit .pop (emit (op 0) (f c)))).ok = true ∧ (f c).ok = true := by
    simp only [shortCircuit, patch_here, ok_patch] at isOk
    exact ⟨isOk, ok_of_emit (afterJump.ok _ isOk)⟩
  constructor
  · intro c isOk
    exact left.ok c (okChain isOk).2
  · intro c level pending base depth scopes state isOk
    obtain ⟨okRight, okLeft⟩ := okChain isOk
    have stage₁ := state.stage.run left okLeft
    rw [← takes] at stage₁
    have stage₂ := stage₁.jump (op 0) (depth + 1) okLeft hasTarget noSlot fun _ => by rw [gives]
    rw [jumpGives] at stage₂
    exact (stage₂.run afterJump okRight).patch_here okRight

/-- Both branches of a conditional leave one cell. -/
theorem effect_conditional {h : Comp}
    (cond : Effect f 0 1) (consequent : Effect g 0 1) (alternate : Effect h 0 1) :
    Effect (fun c =>
      let c := f c
      let jfalse := here c
      let c := c |> emit (.jumpIfFalse 0) |> g
      let jend := here c
      c |> emit (.jump 0) |> patch_here jfalse |> h |> patch_here jend) 0 1 := by
  constructor
  · intro c isOk
    simp only [patch_here, ok_patch] at isOk
    have okJoin := alternate.ok _ isOk
    rw [ok_patch] at okJoin
    exact cond.ok c (ok_of_emit (consequent.ok _ (ok_of_emit okJoin)))
  · intro c level pending base depth scopes state isOk
    simp only [patch_here, ok_patch] at isOk
    have okPatched := alternate.ok _ isOk
    have okJoin := okPatched
    rw [ok_patch] at okJoin
    have okThen := ok_of_emit okJoin
    have okTest := ok_of_emit (consequent.ok _ okThen)
    have stage₁ := (state.stage.run cond okTest).jump (.jumpIfFalse 0) depth okTest rfl rfl
      fun _ => rfl
    -- the jump over the alternate stays pending while the test is closed
    have stage₂ := (stage₁.run consequent okThen).jump (.jump 0) depth okThen rfl rfl nofun
    have stage₃ := stage₂.swap.patch_here okJoin
    exact (stage₃.run alternate isOk).patch_here isOk

variable {factors : ASTNode × ASTNode × ASTNode}

theorem factorBy?_pure {shared leftOther right : ASTNode}
    (found : factorBy? shared leftOther right = some factors) :
    factors.1.isPureNode = true ∧ factors.2.1.isPureNode = true ∧
      factors.2.2.isPureNode = true := by
  unfold factorBy? at found
  split at found
  · split at found
    · split at found
      · rename_i bothPure
        rw [Bool.and_eq_true] at bothPure
        cases found
        exact ⟨rfl, bothPure⟩
      · cases found
    · cases found
  · cases found

theorem factor?_pure {left right : ASTNode} (found : factor? left right = some factors) :
    factors.1.isPureNode = true ∧ factors.2.1.isPureNode = true ∧
      factors.2.2.isPureNode = true := by
  unfold factor? at found
  split at found
  · split at found
    · rename_i first
      cases found
      exact factorBy?_pure first
    · exact factorBy?_pure found
  · cases found

theorem effect_cfactor (op : BinOp)
    (pure : factors.1.isPureNode = true ∧ factors.2.1.isPureNode = true ∧
      factors.2.2.isPureNode = true) : Effect (cfactor op factors) 0 1 := by
  have shared := effect_cleaf pure.1
  have left := (effect_cleaf pure.2.1).above 1
  have right := (effect_cleaf pure.2.2).above 2
  have inner := (effect_emit (.bin op) rfl).above 1
  exact (((shared.seq left).seq right).seq inner).seq (effect_emit (.bin .mul) rfl)

theorem effect_cbinary {bop : BinOp} {left right : ASTNode}
    (leftEffect : Effect f 0 1) (rightEffect : Effect g 0 1) :
    Effect (cbinary bop left right f g) 0 1 := by
  unfold cbinary
  split
  · rename_i factors found
    split at found
    · exact effect_cfactor bop (factor?_pure found)
    · cases found
  · exact (leftEffect.seq (rightEffect.above 1)).seq (effect_emit (.bin bop) rfl)

variable {args : List ASTNode} {cObj : Comp}

/-- A call of any form leaves its result. -/
theorem effect_ccall {callee : ASTNode} {isOptional : Bool} {cCallee cProp cArgs : Comp}
    (callee_ : Effect cCallee 0 1)
    (obj : callee.plainMember?.isSome = true ∨ callee.isComputedMember = true →
      Effect cObj 0 1) (prop : callee.isComputedMember = true → Effect cProp 0 1)
    (args_ : Effect cArgs 0 args.length) :
    Effect (ccall node callee args isOptional cCallee cObj cProp cArgs) 0 1 := by
  have plainCall : Effect (fun c => c |> cCallee |> cArgs
      |> emit16 (.call args.length) args.length) 0 1 := by
    have above := args_.above 1
    exact (callee_.seq above).seq (effect_emit16 (.call args.length) args.length rfl)
  have conversion (ins : Instr) (plain : ins.isPlain = true) (one : args.length = 1)
      (takes : ins.takes = 1) (gives : ins.gives = 1) :
      Effect (fun c => c |> cArgs |> emit ins) 0 1 := by
    have last := effect_emit ins plain
    rw [takes, gives] at last
    rw [one] at args_
    exact args_.seq last
  unfold ccall
  dsimp only
  split
  · exact effect_emit_eval node
  · split
    · rename_i name isPlain
      have receiver := obj (.inl (by rw [isPlain]; rfl))
      have above := args_.above 1
      have pooled := (effect_pool_add_str name).above (args.length + 1)
      rw [Nat.zero_add] at pooled
      exact ((receiver.seq above).seq pooled).seq
        (effect_emit16 (.callMethod name args.length) args.length rfl)
    · split
      · rename_i computed
        have above := args_.above 2
        exact (((obj (.inr computed)).seq ((prop computed).above 1)).seq above).seq
          (effect_emit16 (.callElem args.length) args.length rfl)
      · split
        · exact effect_emit_eval node
        · split
          · split
            · exact effect_emit_eval node
            · split
              · rename_i single
                exact conversion .toString rfl single.1 rfl rfl
              · split
                · rename_i single
                  exact conversion .toNumber rfl single.1 rfl rfl
                · split_ifs with single
                  · exact conversion .toBool rfl single.1 rfl rfl
                  · exact plainCall
          · exact plainCall

theorem effect_cnew {cCallee cArgs : Comp}
    (callee : Effect cCallee 0 1) (args_ : Effect cArgs 0 args.length) :
    Effect (cnew node args cCallee cArgs) 0 1 := by
  unfold cnew
  split
  · exact effect_emit_eval node
  · have above := args_.above 1
    exact (callee.seq above).seq (effect_emit16 (.new args.length) args.length rfl)

variable {cVal : Comp}

theorem effect_cassignName {name : Name} {val : ASTNode} {cValRight : Comp}
    (value : Effect cVal 0 1) (right : isSelfAdd name val = true → Effect cValRight 0 1) :
    Effect (cassignName name val cVal cValRight) 0 1 := by
  have stored := (value.seq (effect_emit .dup rfl)).seq
    ((effect_emit_name_op .storeVar name).above 1)
  refine .of_from fun c => ?_
  cases found : find_local_slot c name with
  | none =>
    exact (stored.at c).of_eq (by simp only [cassignName, found])
  | some slot =>
    cases self : isSelfAdd name val with
    | false =>
      exact (stored.at c).of_eq (by simp only [cassignName, found, self])
    | true =>
      have added := ((right self).at c).slot (.addSelf slot name) rfl rfl
        (holdsSlot_of_find found)
      exact added.of_eq (by simp only [cassignName, found, self])

theorem effect_ccompoundName {name : Name} {bop : BinOp}
    (value : Effect cVal 0 1) : Effect (ccompoundName name bop cVal) 0 1 := by
  have stored := ((((effect_emit_name_op .loadVar name).seq (value.above 1)).seq
    (effect_emit (.bin bop) rfl)).seq (effect_emit .dup rfl)).seq
      ((effect_emit_name_op .storeVar name).above 1)
  refine .of_from fun c => ?_
  cases found : find_local_slot c name with
  | none =>
    exact (stored.at c).of_eq (by simp only [ccompoundName, found])
  | some slot =>
    have holds := holdsSlot_of_find found
    cases bop with
    | add =>
      exact ((value.at c).slot (.addSelf slot name) rfl rfl holds).of_eq
        (by simp only [ccompoundName, found])
    | mul =>
      exact ((value.at c).slot (.mulSelf slot name) rfl rfl holds).of_eq
        (by simp only [ccompoundName, found])
    | _ =>
      exact (stored.at c).of_eq (by simp only [ccompoundName, found])

/-- An assignment of any form leaves its value. -/
theorem effect_cassign {tgt val : ASTNode} {op : AssignOp} {cProp cValRight : Comp}
    (obj : tgt.plainMember?.isSome = true ∨ tgt.isComputedMember = true → Effect cObj 0 1)
    (prop : tgt.isComputedMember = true → Effect cProp 0 1) (value : Effect cVal 0 1)
    (right : ∀ name, isSelfAdd name val = true → Effect cValRight 0 1) :
    Effect (cassign node op tgt val cObj cProp cVal cValRight) 0 1 := by
  unfold cassign
  split
  · exact .of_fail fun _ => rfl
  · cases op with
    | assign =>
      dsimp only
      split
      · exact effect_cassignName value (right _)
      · split
        · rename_i prop isPlain
          exact ((obj (.inl (by rw [isPlain]; rfl))).seq (value.above 1)).seq
            (effect_emit_name_op .setProp prop)
        · split_ifs with computed
          · exact (((obj (.inr computed)).seq ((prop computed).above 1)).seq
              (value.above 2)).seq (effect_emit .setElem rfl)
          · exact effect_emit_eval node
    | compound op =>
      dsimp only
      split
      · exact effect_emit_eval node
      · rename_i bop _
        split
        · exact effect_ccompoundName value
        · split
          · rename_i prop isPlain
            have read := ((obj (.inl (by rw [isPlain]; rfl))).seq (effect_emit .dup rfl)).seq
              ((effect_emit_name_op .getProp prop).above 1)
            exact ((read.seq (value.above 2)).seq ((effect_emit (.bin bop) rfl).above 1)).seq
              (effect_emit_name_op .setProp prop)
          · split_ifs with computed
            · have read := (((obj (.inr computed)).seq ((prop computed).above 1)).seq
                (effect_emit .dup2 rfl)).seq ((effect_emit .getElem rfl).above 2)
              exact ((read.seq (value.above 3)).seq ((effect_emit (.bin bop) rfl).above 2)).seq
                (effect_emit .setElem rfl)
            · exact effect_emit_eval node

/-- An increment of a name leaves its value. -/
theorem effect_cincdecName (isInc isPrefix : Bool) (name : Name) :
    Effect (cincdecName isInc isPrefix name) 0 1 := by
  have load := effect_emit_name_op .loadVar name
  have store := (effect_emit_name_op .storeVar name).above 1
  have one := (effect_emit (.pushInt32 1) rfl).above 1
  have sub := effect_emit (.bin .sub) rfl
  have dup := effect_emit .dup rfl
  have number := load.seq (effect_emit (.un .pos) rfl)
  refine .of_from fun c => ?_
  cases isInc with
  | false =>
    cases isPrefix with
    | true =>
      have code := (((number.seq one).seq sub).seq dup).seq store
      exact (code.at c).of_eq (by simp [cincdecName])
    | false =>
      have code := (((number.seq dup).seq (one.above 1)).seq (sub.above 1)).seq store
      exact (code.at c).of_eq (by simp [cincdecName])
  | true =>
    cases found : find_local_slot c name with
    | none =>
      have inc := effect_emit_name_op .incVar name
      cases isPrefix with
      | true =>
        have code := (inc.seq (effect_emit .pop rfl)).seq load
        exact (code.at c).of_eq (by simp [cincdecName, found])
      | false =>
        exact (inc.at c).of_eq (by simp [cincdecName, found])
    | some slot =>
      have holds := holdsSlot_of_find found
      have inc := ((Effect.idle 0).at c).slot (.incLocal slot name) rfl rfl holds
      cases isPrefix with
      | true =>
        have code := (inc.seq (effect_emit .pop rfl)).slot (.loadLocal slot name) rfl rfl
          holds
        exact code.of_eq (by simp [cincdecName, found])
      | false =>
        exact inc.of_eq (by simp [cincdecName, found])

theorem effect_emit_eval_leaky
    (leaky : (Instr.evalNode node).leaky = true) : Effect (emit_eval node true) 3 1 := by
  refine .guarded (fun _ => rfl) ?_
  refine ((effect_pool_add_node.above 3)).seq (g := emit (.evalNode node)) ?_
  constructor
  · exact fun _ => ok_of_emit
  · intro c level pending base depth scopes state isOk
    have notAdd : Instr.evalNode node ≠ .bin .add :=
      by simp
    rw [emit_of_ok (ok_of_emit isOk) notAdd]
    have admits : Admits c (base + (depth + 3)) scopes (.evalNode node)
        ⟨base + (depth + 1), scopes⟩ :=
      { enough := Nat.zero_le _
        leave := by simp
        fallDepth := fun _ notLeaky => by
          rw [leaky] at notLeaky
          cases notLeaky
        fallLeast := fun _ => by simp only [Instr.takes, Instr.gives]; omega
        fallScopes := fun _ => rfl
        slot := fun _ _ same => by cases same }
    have appended := state.append [] admits (fun some => by cases some) (by simp) state.loops
    rw [append_scopeDepth state.scopeDepth] at appended
    exact ⟨_, appended, state.append_extends ..⟩

/-- An increment of any form leaves its value. -/
theorem effect_cincdec {tgt : ASTNode} {op : UnaryOp} (isInc isPrefix : Bool)
    {cProp : Comp} (isOp : op = if isInc then .inc else .dec)
    (obj : tgt.plainMember?.isSome = true ∨ tgt.isComputedMember = true → Effect cObj 0 1)
    (prop : tgt.isComputedMember = true → Effect cProp 0 1) :
    Effect (cincdec (.unary op isPrefix tgt) isInc isPrefix tgt cObj cProp) 0 1 := by
  have one := effect_emit (.pushInt32 1) rfl
  have number := effect_emit (.un .pos) rfl
  have step := effect_emit (.bin (if isInc then .add else .sub)) rfl
  have dup2 := effect_emit .dup2 rfl
  unfold cincdec
  dsimp only
  split
  · exact effect_cincdecName isInc isPrefix _
  · split
    · rename_i prop isPlain
      have read := (((obj (.inl (by rw [isPlain]; rfl))).seq (effect_emit .dup rfl)).seq
        ((effect_emit_name_op .getProp prop).above 1)).seq (number.above 1)
      have write := effect_emit_name_op .setProp prop
      split
      · exact ((read.seq (one.above 2)).seq (step.above 1)).seq write
      · exact ((((((read.seq dup2).seq (one.above 4)).seq (step.above 3)).seq
          (write.above 2)).seq ((effect_emit .pop rfl).above 2)).seq
            (effect_emit .swap rfl)).seq ((effect_emit .pop rfl).above 1)
    · split
      · rename_i computed
        have read := ((((obj (.inr computed)).seq ((prop computed).above 1)).seq dup2).seq
          ((effect_emit .getElem rfl).above 2)).seq (number.above 2)
        split
        · exact ((read.seq (one.above 3)).seq (step.above 2)).seq (effect_emit .setElem rfl)
        · rename_i postfix_
          rw [Bool.not_eq_true] at postfix_
          subst postfix_
          refine read.seq (effect_emit_eval_leaky ?_)
          cases isInc <;> (subst isOp; exact computed)
      · exact effect_emit_eval _

/-- A member read leaves its value. -/
theorem effect_cmember {obj : ASTNode} (receiver : Effect cObj 0 1) :
    Effect (cmember node obj cObj) 0 1 := by
  refine .of_from fun c => ?_
  cases isPlain : node.plainMember? with
  | none =>
    exact ((effect_emit_eval node).at c).of_eq (by simp only [cmember, isPlain])
  | some prop =>
    have read := receiver.seq (effect_emit_name_op .getProp prop)
    cases obj with
    | identifier name =>
      cases fused : c.forceNoFuse with
      | true =>
        exact (read.at c).of_eq (by simp [cmember, isPlain, fused])
      | false =>
        cases found : find_local_slot c name with
        | none =>
          exact (read.at c).of_eq (by simp [cmember, isPlain, found])
        | some slot =>
          have load := ((effect_pool_add_str prop).at c).slot
            (.loadProp slot name prop) rfl rfl (holdsSlot_of_find found)
          exact load.of_eq (by simp [cmember, isPlain, fused, found])
    | _ =>
      exact (read.at c).of_eq (by simp only [cmember, isPlain])

theorem effect_cproperty {key : ASTNode} {cKey : Comp}
    (key_ : Effect cKey 0 1) (value : Effect cVal 0 1) : Effect (cproperty key cKey cVal) 1 1 := by
  unfold cproperty
  split
  · exact (value.above 1).seq (effect_emit_name_op .defProp _)
  · exact (value.above 1).seq (effect_emit_name_op .defProp _)
  · exact ((key_.above 1).seq (value.above 2)).seq (effect_emit .defElem rfl)

theorem effect_cargs (each : ∀ arg ∈ args, Effect (cexpr arg) 0 1) :
    Effect (cargs args) 0 args.length := by
  induction args with
  | nil =>
    exact .idle 0
  | cons arg args ih =>
    have rest := (ih fun other member =>
      each other (mem_cons_of_mem _ member)).above 1
    exact (each arg mem_cons_self).seq rest

theorem effect_csequence {exprs : List ASTNode} (nonempty : exprs ≠ [])
    (each : ∀ expr ∈ exprs, Effect (cexpr expr) 0 1) : Effect (csequence exprs) 0 1 := by
  induction exprs with
  | nil =>
    exact absurd rfl nonempty
  | cons expr exprs ih =>
    have head := each expr mem_cons_self
    cases exprs with
    | nil =>
      exact head
    | cons next exprs =>
      exact (head.seq (effect_emit .pop rfl)).seq
        (ih (cons_ne_nil _ _) fun other member =>
          each other (mem_cons_of_mem _ member))

theorem effect_ctemplate {exprs : List ASTNode} (parts : List String)
    (each : ∀ expr ∈ exprs, Effect (cexpr expr) 0 1) : Effect (ctemplate exprs parts) 1 1 := by
  induction exprs generalizing parts with
  | nil =>
    exact .idle 1
  | cons expr exprs ih =>
    have add := effect_emit (.bin .add) rfl
    have joined := ((each expr mem_cons_self).above 1).seq add
    have rest := ih parts.tail fun other member =>
      each other (mem_cons_of_mem _ member)
    unfold ctemplate
    dsimp only
    split
    · exact joined.seq rest
    · exact ((joined.seq ((effect_emit_push_string _).above 1)).seq add).seq rest

theorem effect_cprops {props : List ASTNode}
    (each : ∀ key val computed shorthand, .property key val computed shorthand ∈ props →
      Effect (cexpr key) 0 1 ∧ Effect (cexpr val) 0 1) : Effect (cprops props) 1 1 := by
  induction props with
  | nil =>
    exact .idle 1
  | cons prop props ih =>
    have rest := ih fun key val computed shorthand member =>
      each key val computed shorthand (mem_cons_of_mem _ member)
    cases prop with
    | property key val computed shorthand =>
      obtain ⟨key_, value⟩ := each key val computed shorthand mem_cons_self
      exact (effect_cproperty key_ value).seq rest
    | _ =>
      exact rest

section

variable {tgt : ASTNode} (smaller : ∀ m : ASTNode, sizeOf m < sizeOf tgt → Effect (cexpr m) 0 1)
include smaller

theorem effect_cobj (isMember : tgt.plainMember?.isSome = true ∨ tgt.isComputedMember = true) :
    Effect (cobj tgt) 0 1 := by
  cases tgt with
  | member obj prop isOptional | computedMember obj prop =>
    exact smaller obj (by decreasing_tactic)
  | _ =>
    rcases isMember with isPlain | isComputed
    · cases isPlain
    · cases isComputed

theorem effect_cprop (isComputed : tgt.isComputedMember = true) : Effect (cprop tgt) 0 1 := by
  cases tgt with
  | computedMember obj prop =>
    exact smaller prop (by decreasing_tactic)
  | _ =>
    cases isComputed

end

theorem effect_cright {name : Name} {val : ASTNode}
    (smaller : ∀ m : ASTNode, sizeOf m < sizeOf val → Effect (cexpr m) 0 1)
    (self : isSelfAdd name val = true) : Effect (cright val) 0 1 := by
  cases val with
  | binary op left right =>
    exact smaller right (by decreasing_tactic)
  | _ =>
    cases self

/-- Every expression leaves one cell, by induction on the syntax tree. -/
theorem effect_cexpr (n : ASTNode) : Effect (cexpr n) 0 1 := by
  induction size : sizeOf n using Nat.strong_induction_on generalizing n with
  | _ size_ smaller =>
  have sub (m : ASTNode) (less : sizeOf m < sizeOf n) : Effect (cexpr m) 0 1 :=
    smaller _ (size ▸ less) m rfl
  have each (items : List ASTNode) (less : sizeOf items < sizeOf n) (item : ASTNode)
      (member : item ∈ items) : Effect (cexpr item) 0 1 :=
    sub item ((sizeOf_lt_of_mem member).trans less)
  refine .guarded (cexpr.eq_def n) ?_
  cases n with
  | null =>
    exact effect_emit .pushUndefined rfl
  | literal value =>
    exact effect_cliteral value
  | identifier name =>
    exact effect_emit_name_op .loadVar name
  | this =>
    exact effect_cthis
  | super =>
    have flag : Effect (fun c => { c with usesSuper := true }) 0 0 :=
      .of_same (fun _ => ⟨rfl, rfl, .rfl, rfl, rfl, rfl, rfl⟩) fun _ isOk => isOk
    exact flag.seq (effect_emit_eval .super)
  | binary op left right =>
    have leftEffect := sub left (by decreasing_tactic)
    have rightEffect := sub right (by decreasing_tactic)
    cases op with
    | andAnd | orOr | nullish =>
      exact effect_shortCircuit rfl rfl rfl rfl rfl leftEffect rightEffect
    | _ =>
      exact effect_cbinary leftEffect rightEffect
  | unary op isPrefix arg =>
    have argEffect := sub arg (by decreasing_tactic)
    have inner (m : ASTNode) (less : sizeOf m < sizeOf arg) : Effect (cexpr m) 0 1 :=
      sub m (by decreasing_tactic)
    have operator (op : UnOp) := argEffect.seq (effect_emit (.un op) rfl)
    cases op with
    | inc =>
      exact effect_cincdec true isPrefix rfl (effect_cobj inner) (effect_cprop inner)
    | dec =>
      exact effect_cincdec false isPrefix rfl (effect_cobj inner) (effect_cprop inner)
    | typeof =>
      dsimp only
      split
      · exact effect_emit_name_op .typeofVar _
      · exact operator .typeof
    | void =>
      exact operator .void
    | delete =>
      dsimp only
      split
      · rename_i prop isPlain
        exact (effect_cobj inner (.inl (by rw [isPlain]; rfl))).seq
          (effect_emit_name_op .deleteProp prop)
      · split_ifs with computed
        · exact ((effect_cobj inner (.inr computed)).seq
            ((effect_cprop inner computed).above 1)).seq (effect_emit .deleteElem rfl)
        · exact effect_emit .pushTrue rfl
    | not =>
      exact operator .not
    | bitNot =>
      exact operator .bitNot
    | minus =>
      dsimp only
      split
      · exact operator .neg
      · exact effect_emit_eval _
    | plus =>
      dsimp only
      split
      · exact operator .pos
      · exact effect_emit_eval _
  | conditional cond consequent alternate =>
    exact effect_conditional
      (sub cond (by decreasing_tactic))
      (sub consequent (by decreasing_tactic))
      (sub alternate (by decreasing_tactic))
  | call callee args isOptional =>
    have inner (m : ASTNode) (less : sizeOf m < sizeOf callee) : Effect (cexpr m) 0 1 :=
      sub m (by decreasing_tactic)
    exact effect_ccall (sub callee (by decreasing_tactic))
      (effect_cobj inner) (effect_cprop inner)
      (effect_cargs (each args (by decreasing_tactic)))
  | new callee args =>
    exact effect_cnew (sub callee (by decreasing_tactic))
      (effect_cargs (each args (by decreasing_tactic)))
  | member obj prop isOptional =>
    exact effect_cmember (sub obj (by decreasing_tactic))
  | computedMember obj prop =>
    have objEffect := sub obj (by decreasing_tactic)
    have propEffect := sub prop (by decreasing_tactic)
    dsimp only
    split
    · exact (objEffect.seq (propEffect.above 1)).seq (effect_emit .getElem rfl)
    · exact effect_emit_eval _
  | array elements =>
    have items := effect_cargs (each elements (by decreasing_tactic))
    dsimp only
    split
    · exact effect_emit_eval _
    · exact items.seq (effect_emit16 (.newArray elements.length) elements.length rfl)
  | object props =>
    dsimp only
    split
    · refine (effect_emit .newObject rfl).seq (effect_cprops ?_)
      intro key val computed shorthand member
      have less := sizeOf_lt_of_mem member
      simp only [ASTNode.property.sizeOf_spec] at less
      exact ⟨sub key (by decreasing_tactic),
        sub val (by decreasing_tactic)⟩
    · exact effect_emit_eval _
  | assign op target value =>
    have inTarget (m : ASTNode) (less : sizeOf m < sizeOf target) : Effect (cexpr m) 0 1 :=
      sub m (by decreasing_tactic)
    have inValue (m : ASTNode) (less : sizeOf m < sizeOf value) : Effect (cexpr m) 0 1 :=
      sub m (by decreasing_tactic)
    exact effect_cassign (effect_cobj inTarget) (effect_cprop inTarget)
      (sub value (by decreasing_tactic))
      fun _ => effect_cright inValue
  | sequence exprs =>
    dsimp only
    split_ifs with nonempty
    · exact effect_emit .pushUndefined rfl
    · rw [List.isEmpty_iff] at nonempty
      exact effect_csequence nonempty
        (each exprs (by decreasing_tactic))
  | template parts exprs =>
    exact (effect_emit_push_string _).seq (effect_ctemplate _
      (each exprs (by decreasing_tactic)))
  | _ =>
    exact effect_emit_eval _

end LRJS
