import LRJS.StatementTracking

/-!
# `try`, jumps and what they run

The results about `try` statements and jumps: in a run without hazards the catch clause runs
exactly for errors, the finally clause runs in any case, and jumps end where they should.
After each result there is a program that meets a hazard, and goes wrong.
-/

namespace LRJS
namespace TreeWalker

open Monitored Partial

variable {V W : Type} {host : Host V W} {s : Interp V W} {completion : Completion V} {world : W}

/-- The world is the list of the identifiers evaluated, the last one first.  An identifier is true
the first time only; `fail` throws. -/
def recorder : Host Bool (List Name) where
  undefined := false
  toBool := id
  isObject _ := true
  strict_eq left right := left == right
  push_scope log := log
  pop_scope log := log
  declare_name _ _ log := log
  error_object _ log := (true, log)
  expression node log :=
    match node with
    | .identifier name =>
      if name = "fail" then .raise (.thrown true) log else .ret (name ∉ log) (name :: log)
    | _ => .ret false log
  get_property _ _ log := .ret false log
  own_property_names _ log := .ret false log
  listed _ := []
  string _ := false
  is_function _ := false
  call _ _ log := .ret false log
  for_in_assign_var _ _ log := .ret false log
  for_of_assign_var _ _ log := .ret false log
  iteration _ _ := .notIterable

def mark (name : Name) : ASTNode :=
  .exprStmt (.identifier name)

/-- The finally part releases the saved value once, if its own outcome wins. -/
theorem afterFinally_released {catch_body : ASTNode} {caught : Bool} {saved s s₁ : Interp V W}
    {value left : V} {before last : Completion V} (outside : saved.exception_pending = false)
    (ended : Encodes last left s₁) (returns : before.isReturn = true)
    (fresh : (before.isReturn && last.isJump) = false) (calm : ¬ last.isThrow = true) :
    (afterFinally host catch_body caught saved s value left s₁).2.released =
      if last.isNormal then s₁.released else s.return_value :: s₁.released := by
  rw [returns, Bool.true_and] at fresh
  unfold afterFinally
  cases last with
  | normal result =>
    have settled : Clear false s₁ := ended.2
    simp [settled.no_error, settled.has_returned, outside, Completion.isNormal]
  | «return» result =>
    have settled : Clear true s₁ := ended.2
    simp [settled.no_error, settled.has_returned, Completion.isNormal]
  | throw raised returning => exact absurd rfl calm
  | _ => cases fresh

/-- Without hazards every statement ends as its meaning says: a jump goes on at the end or the next
turn of its target, and after a normal end no flag and no label is left. -/
theorem jumps_reach_their_targets {depth : Nat} {node : ASTNode} (clear : Clear false s)
    (run : Safe (meaning host depth [] node s.world) completion world) :
    Reaches (interp_eval_node host depth node s) fun (value, s') =>
      s'.world = world ∧ Encodes completion value s' ∧
      (completion.isJump = false → s'.break_target = false ∧ s'.continue_target = false ∧
        s'.break_label = [] ∧ s'.continue_label = [] ∧ s'.pending_label = none) := by
  refine ((interp_eval_node_sound host depth).tracks.plain clear run).mono ?_
  rintro ⟨value, s'⟩ ⟨there, encoded⟩
  refine ⟨there, encoded, fun stays => ?_⟩
  cases completion with
  | normal result =>
    have settled : Clear false s' := encoded.2
    exact ⟨settled.no_break, settled.no_continue, settled.texts.1, settled.texts.2,
      settled.no_label⟩
  | «return» result =>
    have settled : Clear true s' := encoded.2
    exact ⟨settled.no_break, settled.no_continue, settled.texts.1, settled.texts.2,
      settled.no_label⟩
  | throw raised returning =>
    have failed : Failed returning raised s' := encoded
    exact ⟨failed.no_break, failed.no_continue, failed.clear.texts.1, failed.clear.texts.2,
      failed.no_label⟩
  | _ => cases stays

/-- `outer: while (more) { while (again) { continue outer; } }`. -/
theorem continue_outer_ends :
    Reaches (interp_eval_node recorder 8 (.labelStmt (.identifier "outer")
        (.whileStmt (.identifier "more") (.block [.whileStmt (.identifier "again")
          (.block [.continueStmt (.identifier "outer")])]))) (Interp.initial recorder []))
      fun (_, s') => s'.world = ["more", "again", "more"] ∧ s'.continue_target = false := by
  have run : Safe (meaning recorder 8 [] (.labelStmt (.identifier "outer")
      (.whileStmt (.identifier "more") (.block [.whileStmt (.identifier "again")
        (.block [.continueStmt (.identifier "outer")])]))) []) (.normal false)
      ["more", "again", "more"] := ⟨[], by rfl, by simp⟩
  refine (jumps_reach_their_targets (by rfl) run).mono ?_
  rintro ⟨value, s'⟩ ⟨there, encoded, settled⟩
  exact ⟨there, (settled rfl).2.1⟩

/-- `while (more) { switch (0) { case 0: continue; after; } }`: the statement after the jump
runs. -/
theorem continue_runs_rest_of_case :
    (meaning recorder 6 [] (.whileStmt (.identifier "more") (.block [.switchStmt .this
        [.caseClause .this (.block [.continueStmt .null, mark "after"])]])) []).result =
      some (.normal false, ["more", "more"]) ∧
    (interp_eval_node recorder 6 (.whileStmt (.identifier "more") (.block [.switchStmt .this
        [.caseClause .this (.block [.continueStmt .null, mark "after"])]]))
        (Interp.initial recorder [])).map (fun left => left.2.world) =
      some ["more", "after", "more"] := by
  constructor <;> rfl

end TreeWalker
end LRJS
