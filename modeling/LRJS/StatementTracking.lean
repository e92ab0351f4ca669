import LRJS.Tracking

/-!
# Every statement is tracked

One lemma for each statement evaluator, and from them, by induction on the depth of the
evaluation, that `interp_eval_node` leaves in its flags what a node means.
-/

namespace LRJS

open List Option Prod
namespace TreeWalker

open Monitored Partial

variable {V W : Type} {host : Host V W} {eval : Eval V W} {ref : Meaning V W}
variable {s : Interp V W} {completion : Completion V} {world : W}

abbrev Follows (completion : Completion V) (world : W) (run : Option (V × Interp V W)) : Prop :=
  Reaches run fun (value, s') => s'.world = world ∧ Encodes completion value s'

structure Sound (host : Host V W) (eval : Eval V W) (ref : Meaning V W) : Prop where
  tracks : Tracks eval ref
  values : TracksValues eval ref
  idle : ∀ node (s : Interp V W), s.error_flag = true → eval node s = some (host.undefined, s)

theorem Failed.follows {raised : Raised V} (failed : Failed false raised s) (value : V)
    (same : completion = .throw raised false) (there : s.world = world) :
    Follows completion world (some (value, s)) := by
  subst same
  exact reaches_some.mpr ⟨there, failed⟩

theorem Follows.pop_scope {run : Option (V × Interp V W)} (follows : Follows completion world run)
    (host : Host V W) :
    Follows completion (host.pop_scope world)
      (run >>= fun (value, s) => some (value, s.pop_scope host)) := by
  refine Reaches.bind follows ?_
  rintro ⟨value, s'⟩ ⟨rfl, encoded⟩
  exact reaches_some.mpr ⟨rfl, encoded.world _⟩

theorem blockItems_stopped (items : List ASTNode) (result : V)
    (stopped : (s.stopped || s.continue_target) = true) :
    blockItems eval items result s = some (result, s) := by
  cases items with
  | nil => rfl
  | cons item items => simp [blockItems, stopped]

theorem blockItems_tracks (tracks : Tracks eval ref) (items : List ASTNode) (result : V)
    (clear : Clear false s) (safe : Safe (refItems ref items result s.world) completion world) :
    Follows completion world (blockItems eval items result s) := by
  induction items generalizing s result with
  | nil =>
    obtain ⟨rfl, rfl⟩ := ends_pair safe
    exact reaches_some.mpr ⟨rfl, rfl, clear⟩
  | cons item items ih =>
    simp only [Safe, refItems, ends_bind] at safe
    obtain ⟨⟨ended, after⟩, evaluated, rest⟩ := safe
    simp only [blockItems, clear.stopped, clear.no_continue, Bool.or_self,
      Bool.false_eq_true, if_false]
    refine Reaches.bind (tracks.plain clear evaluated) ?_
    rintro ⟨value, s'⟩ ⟨rfl, encoded⟩
    rcases ended_normal : ended.isNormal with _ | _
    · have same : completion = ended ∧ world = s'.world := by
        cases ended <;> simp_all [Completion.isNormal]
      obtain ⟨rfl, rfl⟩ := same
      have stopped := encoded.stopped
      rw [ended_normal] at stopped
      by_cases error : s'.error_flag = true
      · simp only [error, if_true]
        exact reaches_some.mpr ⟨rfl, encoded⟩
      · simp only [error, blockItems_stopped items value stopped]
        exact reaches_some.mpr ⟨rfl, encoded⟩
    · cases ended with
      | normal result =>
        obtain ⟨rfl, settled⟩ := encoded
        simp only [settled.no_error, Bool.false_eq_true, if_false]
        exact ih value settled rest
      | _ => simp [Completion.isNormal] at ended_normal

theorem eval_block_tracks (tracks : Tracks eval ref) (items : List ASTNode)
    (clear : Clear false s) (safe : Safe (refBlock host ref items s.world) completion world) :
    Follows completion world (eval_block host eval items s) := by
  simp only [Safe, refBlock, ends_bind, ends_pure, mk.injEq] at safe
  obtain ⟨⟨ended, after⟩, evaluated, rfl, rfl⟩ := safe
  exact (blockItems_tracks tracks items host.undefined (clear.world _) evaluated).pop_scope host

theorem eval_program_tracks (tracks : Tracks eval ref) (items : List ASTNode) (result : V)
    (clear : Clear false s) (safe : Safe (refItems ref items result s.world) completion world)
    (stays : completion.isJump = false) :
    Follows completion world (eval_program eval items result s) := by
  induction items generalizing s result with
  | nil =>
    obtain ⟨rfl, rfl⟩ := ends_pair safe
    exact reaches_some.mpr ⟨rfl, rfl, clear⟩
  | cons item items ih =>
    simp only [Safe, refItems, ends_bind] at safe
    obtain ⟨⟨ended, after⟩, evaluated, rest⟩ := safe
    simp only [eval_program, clear.no_error, clear.has_returned, Bool.or_self,
      Bool.false_eq_true, if_false]
    refine Reaches.bind (tracks.plain clear evaluated) ?_
    rintro ⟨value, s'⟩ ⟨rfl, encoded⟩
    have skipped (left : (s'.error_flag || s'.has_returned) = true) :
        eval_program eval items value s' = some (value, s') := by
      cases items with
      | nil => rfl
      | cons item items => simp [eval_program, left]
    cases ended with
    | normal result =>
      obtain ⟨rfl, settled⟩ := encoded
      exact ih value settled rest
    | «return» result =>
      obtain ⟨rfl, rfl⟩ := ends_pair rest
      have settled := encoded.2
      rw [skipped (by simp [settled.has_returned])]
      exact reaches_some.mpr ⟨rfl, encoded⟩
    | throw raised returning =>
      obtain ⟨rfl, rfl⟩ := ends_pair rest
      rw [skipped (by simp [Failed.error encoded])]
      exact reaches_some.mpr ⟨rfl, encoded⟩
    | «break» target result | «continue» target result =>
      simp only [ends_pure, mk.injEq] at rest
      simp [← rest.1, Completion.isJump] at stays

variable {body : ASTNode}

theorem eval_if_tracks (tracks : Tracks eval ref) (values : TracksValues eval ref)
    {cond elseBody : ASTNode} (clear : Clear false s)
    (safe : Safe (refIf host ref cond body elseBody s.world) completion world) :
    Follows completion world (eval_if host eval cond body elseBody s) := by
  refine Reaches.bind (values.operand clear safe) ?_
  rintro ⟨value, s'⟩ (⟨settled, rest⟩ | ⟨raised, shape, there, failed⟩)
  · simp only [settled.no_error, Bool.false_eq_true, if_false]
    cases truthy : host.toBool value with
    | true =>
      simp only [Safe, truthy, if_true] at rest
      exact tracks.plain settled rest
    | false =>
      simp only [Safe, truthy, Bool.false_eq_true, if_false] at rest
      exact tracks.plain settled rest
  · simp only [failed.error, if_true]
    exact failed.follows value shape there

theorem withDeclare_tracks (tracks : Tracks eval ref) (values : TracksValues eval ref) (obj : V)
    (names : List Name) {next : W → Noted (Ending V W)} (clear : Clear false s)
    (safe : Safe (refDeclare host ref obj names s.world next) completion world) :
    Reaches (withDeclare host eval obj names s) fun s' =>
      Clear false s' ∧ Safe (next s'.world) completion world := by
  induction names generalizing s with
  | nil => exact reaches_some.mpr ⟨clear, safe⟩
  | cons name names ih =>
    refine Reaches.bind (read_tracks tracks values clear safe) ?_
    rintro ⟨value, s₁⟩ ⟨settled, rest⟩
    exact ih (settled.world _) rest

theorem eval_with_tracks (tracks : Tracks eval ref) (values : TracksValues eval ref)
    {obj : ASTNode} (clear : Clear false s)
    (safe : Safe (refWith host ref obj body s.world) completion world) :
    Follows completion world (eval_with host eval obj body s) := by
  refine Reaches.bind (values.operand clear safe) ?_
  rintro ⟨value, s'⟩ (⟨settled, rest⟩ | ⟨raised, shape, there, failed⟩)
  · dsimp only
    rw [if_neg settled.error_ne]
    cases object : host.isObject value with
    | true =>
      simp only [Safe, object, if_true, ends_bind, ends_pure, mk.injEq] at rest
      obtain ⟨⟨ended, after⟩, evaluated, rfl, rfl⟩ := rest
      refine Reaches.bind (read_tracks tracks values (settled.world _) evaluated) ?_
      rintro ⟨ignored, s₁⟩ ⟨listed, evaluated⟩
      refine Reaches.bind (withDeclare_tracks tracks values value _ listed evaluated) ?_
      rintro s₂ ⟨declared, evaluated⟩
      exact Follows.pop_scope (tracks.plain declared evaluated) host
    | false =>
      simp only [Safe, object, Bool.false_eq_true, if_false] at rest
      obtain ⟨rfl, rfl⟩ := ends_pair rest
      exact (settled.raise host _).follows _ rfl rfl
  · simp only [failed.error, if_true]
    exact failed.follows value shape there

/-! ## Jumps out of a loop body -/

variable {label : Option Name}

theorem break_is_mine_iff :
    s.break_is_mine label = true ↔ s.break_target = true ∧
      (s.break_label = [] ∨ label.map labelBytes = some s.break_label) := by
  simp [Interp.break_is_mine]

theorem continue_is_mine_iff :
    s.continue_is_mine label = true ↔ s.continue_target = true ∧
      (s.continue_label = [] ∨ label.map labelBytes = some s.continue_label) := by
  simp [Interp.continue_is_mine]

theorem text_is_mine (label : Option Name) {target : Option Name} {text : LabelText}
    (held : TextOf target text) :
    (text = [] ∨ label.map labelBytes = some text) ↔ target = none ∨ label = target := by
  cases target with
  | none => simp [show text = [] from held]
  | some name =>
    obtain ⟨rfl, nonempty⟩ := held
    cases label with
    | none => simp [nonempty]
    | some own => simp [nonempty, labelBytes_injective.eq_iff]

section LoopBody

variable {labels : List Name} {label : Option Name} {value : V} {ended : Completion V}

theorem settle_break_other (none_left : s.break_target = false) : s.settle_break label = s := by
  simp [Interp.settle_break, Interp.break_is_mine, none_left]

theorem settle_break_encodes (label : Option Name) {target : Option Name} {result : V}
    (encoded : Encodes (.break target result) value s) :
    Encodes (if target = none ∨ label = target then .normal result else .break target result)
      value (s.settle_break label) := by
  obtain ⟨same, breaks, held, clear⟩ := encoded
  have mine := text_is_mine label held
  unfold Interp.settle_break
  by_cases own : target = none ∨ label = target
  · rw [if_pos own, if_pos (break_is_mine_iff.mpr ⟨breaks, mine.mpr own⟩)]
    exact ⟨same, clear⟩
  · rw [if_neg own, if_neg fun consumed => own (mine.mp (break_is_mine_iff.mp consumed).2)]
    exact ⟨same, breaks, held, clear⟩

theorem settle_loop (label : Option Name) (encoded : Encodes ended value s)
    (ends : Ends tolerated (loopStep labels ended) (.inr completion)) :
    Encodes (completion.absorb label) value (s.settle_break label) := by
  cases ended with
  | normal result => simp [loopStep] at ends
  | «return» result =>
    simp only [loopStep, ends_pure, Sum.inr.injEq] at ends
    subst ends
    rw [settle_break_other encoded.2.no_break]
    exact encoded
  | throw raised returning =>
    simp only [loopStep, ends_pure, Sum.inr.injEq] at ends
    subst ends
    rw [settle_break_other (Failed.no_break encoded)]
    exact encoded
  | «break» target result =>
    have settled := settle_break_encodes label encoded
    cases target with
    | none | some name =>
      simp only [loopStep, ends_pure, Sum.inr.injEq] at ends
      subst ends
      simpa [Completion.absorb] using settled
  | «continue» target result =>
    cases target with
    | none => simp [loopStep] at ends
    | some name =>
      by_cases own : name ∈ labels
      · simp [loopStep, own] at ends
      · simp only [loopStep, own, if_false, ends_pure, Sum.inr.injEq] at ends
        subst ends
        have no_break : s.break_target = false := encoded.2.2.2.no_break
        rw [settle_break_other no_break]
        exact encoded

section

variable (head : label = labels.head?)
include head

section

variable (encoded : Encodes ended value s)
include encoded

theorem continue_loop {next : V} (ends : Ends tolerated (loopStep labels ended) (.inl next)) :
    next = value ∧
      ((s.continue_target = false ∧ Clear false s) ∨
        (s.continue_target = true ∧ s.continue_is_mine label = true ∧ s.break_target = false ∧
          s.has_returned = false ∧ s.error_flag = false ∧ Clear false s.consume_continue)) := by
  have taken {target : Option Name} {result : V}
      (encoded : Encodes (.continue target result) value s) (own : target = none ∨ label = target) :
      s.continue_target = true ∧ s.continue_is_mine label = true ∧ s.break_target = false ∧
        s.has_returned = false ∧ s.error_flag = false ∧ Clear false s.consume_continue := by
    obtain ⟨-, continues, held, clear⟩ := encoded
    have mine := (text_is_mine label held).mpr own
    refine ⟨continues, ?_, clear.no_break, clear.has_returned, clear.no_error, clear⟩
    simpa [Interp.continue_is_mine, continues] using mine
  cases ended with
  | normal result =>
    simp only [loopStep, ends_pure, Sum.inl.injEq] at ends
    exact ⟨ends.symm.trans encoded.1.symm, .inl ⟨encoded.2.no_continue, encoded.2⟩⟩
  | «return» result | throw raised returning => simp [loopStep] at ends
  | «break» target result => cases target <;> simp [loopStep] at ends
  | «continue» target result =>
    cases target with
    | none =>
      simp only [loopStep, ends_pure, Sum.inl.injEq] at ends
      exact ⟨ends.symm.trans encoded.1.symm, .inr (taken encoded (.inl rfl))⟩
    | some name =>
      by_cases own : name ∈ labels
      · simp only [loopStep, own, if_true, ends_bind, ends_note, ends_pure,
          Sum.inl.injEq] at ends
        obtain ⟨-, quiet, same⟩ := ends
        have innermost : labels.head? = some name := by
          by_contra other
          cases quiet (by simpa using other)
        exact ⟨same.symm.trans encoded.1.symm,
          .inr (taken encoded (.inr (head.trans innermost)))⟩
      · simp [loopStep, own] at ends

theorem loop_ended (ends : Ends tolerated (loopStep labels ended) (.inr completion)) :
    (s.continue_target = true ∧ s.continue_is_mine label = false) ∨
      (s.continue_target = false ∧ s.stopped = true) := by
  cases ended with
  | normal result => simp [loopStep] at ends
  | «return» result =>
    exact .inr ⟨encoded.2.no_continue, by simp [Interp.stopped, encoded.2.has_returned]⟩
  | throw raised returning => exact .inr ⟨Failed.no_continue encoded, Failed.stopped encoded⟩
  | «break» target result =>
    exact .inr ⟨encoded.2.2.2.no_continue, by simp [Interp.stopped, encoded.2.1]⟩
  | «continue» target result =>
    obtain ⟨-, continues, held, -⟩ := encoded
    refine .inl ⟨continues, ?_⟩
    by_contra mine
    have own := (text_is_mine label held).mp (continue_is_mine_iff.mp (by simpa using mine)).2
    cases target with
    | none => simp [loopStep] at ends
    | some name =>
      rcases own with absent | same
      · cases absent
      · have member : name ∈ labels := mem_of_mem_head? (head.symm.trans same)
        simp [loopStep, member] at ends

theorem afterBody_ends (ends : Ends tolerated (loopStep labels ended) (.inr completion)) :
    afterBody label s = (false, s.settle_break label) := by
  unfold afterBody
  by_cases breaks : s.break_target = true
  · rw [if_pos breaks]
  · rw [if_neg breaks, settle_break_other (by simpa using breaks)]
    rcases loop_ended head encoded ends with ⟨continues, other⟩ | ⟨-, stopped⟩
    · simp [continues, other]
    · have left : (s.has_returned || s.error_flag) = true := by
        simpa [Interp.stopped, breaks] using stopped
      rw [if_pos left]

theorem afterBody_continues {next : V} (ends : Ends tolerated (loopStep labels ended) (.inl next)) :
    ∃ s', afterBody label s = (true, s') ∧ s'.world = s.world ∧ Clear false s' := by
  obtain ⟨-, ⟨continues, clear⟩ | ⟨continues, mine, breaks, returned, error, clear⟩⟩ :=
    continue_loop head encoded ends
  · refine ⟨s, ?_, rfl, clear⟩
    simp [afterBody, clear.no_break, clear.has_returned, clear.no_error, continues]
  · refine ⟨s.consume_continue, ?_, rfl, clear⟩
    simp [afterBody, breaks, returned, error, continues, mine]

end

end

end LoopBody

/-! ## Loops -/

section Loops

variable {labels : List Name} {label : Option Name}

theorem Ready.start {node : ASTNode} (ready : Ready labels node s)
    (loop : is_breakable node = true) :
    s.pending_label = labels.head? ∧ Clear false { s with pending_label := none } := by
  refine ⟨?_, ready.clear⟩
  rw [ready.label, loop, if_pos rfl]

theorem settle_break_world : (s.settle_break label).world = s.world := by
  unfold Interp.settle_break
  split <;> rfl

theorem Sound.body_failed (sound : Sound host eval ref) {raised : Raised V} {returned : Bool}
    (body : ASTNode) (label : Option Name) (failed : Failed returned raised s) :
    eval body s = some (host.undefined, s) ∧ afterBody label s = (false, s) := by
  refine ⟨sound.idle body s failed.error, ?_⟩
  simp [afterBody, failed.no_break, failed.error]

variable {body : ASTNode}

section

variable (sound : Sound host eval ref)
include sound

/-- The turns of `while` go on as the meaning says, by induction on their number. -/
theorem whileTurns_tracks {cond : ASTNode} (head : label = labels.head?) (turns : Nat)
    (result : V) (clear : Clear false s)
    (safe : Safe (refWhileTurns host ref cond body labels turns result s.world) completion world) :
    Follows (completion.absorb label) world
      (whileTurns host eval cond body label turns result s) := by
  induction turns generalizing s result with
  | zero => simp [Safe, refWhileTurns] at safe
  | succ turns ih =>
    simp only [whileTurns, clear.stopped, Bool.false_eq_true, if_false]
    refine Reaches.bind (sound.values.operand clear safe) ?_
    rintro ⟨value, s'⟩ (⟨settled, rest⟩ | ⟨raised, rfl, rfl, failed⟩)
    · cases truthy : host.toBool value with
      | false =>
        simp only [Safe, truthy, Bool.false_eq_true, if_false] at rest
        obtain ⟨rfl, rfl⟩ := ends_pair rest
        exact reaches_some.mpr ⟨rfl, rfl, settled⟩
      | true =>
        simp only [Safe, truthy, if_true, ends_bind] at rest
        obtain ⟨⟨ended, after⟩, evaluated, outcome, step, rest⟩ := rest
        refine Reaches.bind (sound.tracks.plain settled evaluated) ?_
        rintro ⟨value, s''⟩ ⟨rfl, encoded⟩
        cases outcome with
        | inl next =>
          obtain ⟨rfl, -⟩ := continue_loop head encoded step
          obtain ⟨s₃, goes, there, cleared⟩ := afterBody_continues head encoded step
          simp only [goes]
          exact ih next cleared (there ▸ rest)
        | inr ending =>
          obtain ⟨rfl, rfl⟩ := ends_pair rest
          simp only [afterBody_ends head encoded step]
          exact reaches_some.mpr ⟨settle_break_world, settle_loop label encoded step⟩
    · obtain ⟨skipped, ends⟩ := sound.body_failed body label failed
      cases truthy : host.toBool value with
      | false => exact reaches_some.mpr ⟨rfl, failed⟩
      | true =>
        simp only [Bool.not_true, Bool.false_eq_true, if_false, skipped,
          bind_eq_bind, bind_some, ends]
        exact reaches_some.mpr ⟨rfl, failed⟩

theorem doWhileTurns_tracks {cond : ASTNode} (head : label = labels.head?) (turns : Nat)
    (clear : Clear false s)
    (safe : Safe (refDoWhileTurns host ref cond body labels turns s.world) completion world) :
    Follows (completion.absorb label) world (doWhileTurns host eval cond body label turns s) := by
  induction turns generalizing s with
  | zero => simp [Safe, refDoWhileTurns] at safe
  | succ turns ih =>
    simp only [Safe, refDoWhileTurns, ends_bind] at safe
    obtain ⟨⟨ended, after⟩, evaluated, outcome, step, rest⟩ := safe
    refine Reaches.bind (sound.tracks.plain clear evaluated) ?_
    rintro ⟨value, s'⟩ ⟨rfl, encoded⟩
    cases outcome with
    | inr ending =>
      obtain ⟨rfl, rfl⟩ := ends_pair rest
      simp only [afterBody_ends head encoded step]
      exact reaches_some.mpr ⟨settle_break_world, settle_loop label encoded step⟩
    | inl next =>
      obtain ⟨rfl, -⟩ := continue_loop head encoded step
      obtain ⟨s₂, goes, there, cleared⟩ := afterBody_continues head encoded step
      simp only [goes]
      refine Reaches.bind (sound.values.operand cleared (there ▸ rest)) ?_
      rintro ⟨test, s₃⟩ (⟨settled, rest⟩ | ⟨raised, rfl, rfl, failed⟩)
      · cases truthy : host.toBool test with
        | false =>
          simp only [Safe, truthy, Bool.false_eq_true, if_false] at rest
          obtain ⟨rfl, rfl⟩ := ends_pair rest
          exact reaches_some.mpr ⟨rfl, rfl, settled⟩
        | true =>
          simp only [Safe, truthy, if_true] at rest
          simp only [settled.stopped, Bool.not_true, Bool.or_self, Bool.false_eq_true,
            if_false]
          exact ih settled rest
      · simp only [failed.stopped, Bool.or_true, if_true]
        exact reaches_some.mpr ⟨rfl, failed⟩

theorem forTest_tracks {test : ASTNode} {result : V} {next : W → Noted (Ending V W)}
    (clear : Clear false s)
    (safe : Safe (refForTest host ref test s.world result next) completion world) :
    Reaches (forTurns.forTest host eval test s) fun (go, s') =>
      (Clear false s' ∧ (if go then Safe (next s'.world) completion world else
        completion = .normal result ∧ s'.world = world)) ∨
        ∃ raised, completion = .throw raised false ∧ s'.world = world ∧ Failed false raised s' := by
  by_cases missing : test = .null
  · subst missing
    exact reaches_some.mpr (.inl ⟨clear, safe⟩)
  · have present : refForTest host ref test s.world result next =
        refOperand ref test s.world fun value world =>
          if host.toBool value then next world else pure (.normal result, world) := by
      unfold refForTest
      split
      · exact absurd rfl missing
      · rfl
    have evaluated : forTurns.forTest host eval test s = (do
        let (value, s) ← eval test s
        return (host.toBool value, s)) := by
      unfold forTurns.forTest
      split
      · exact absurd rfl missing
      · rfl
    rw [present] at safe
    rw [evaluated]
    refine Reaches.bind (sound.values.operand clear safe) ?_
    rintro ⟨value, s'⟩ (⟨settled, rest⟩ | failure)
    · refine reaches_some.mpr (.inl ⟨settled, ?_⟩)
      cases truthy : host.toBool value with
      | false => simpa [Safe, truthy, eq_comm] using rest
      | true => simpa [Safe, truthy] using rest
    · exact reaches_some.mpr (.inr failure)

/-- The turns of `for` go on as the meaning says, by induction on their number. -/
theorem forTurns_tracks {test update : ASTNode} (head : label = labels.head?) (turns : Nat)
    (result : V) (clear : Clear false s)
    (safe : Safe (refForTurns host ref test update body labels turns result s.world)
      completion world) :
    Follows (completion.absorb label) world
      (forTurns host eval test update body label turns result s) := by
  induction turns generalizing s result with
  | zero => simp [Safe, refForTurns] at safe
  | succ turns ih =>
    simp only [forTurns, clear.stopped, Bool.false_eq_true, if_false]
    refine Reaches.bind (forTest_tracks sound clear safe) ?_
    rintro ⟨go, s'⟩ (⟨settled, rest⟩ | ⟨raised, rfl, rfl, failed⟩)
    · cases go with
      | false =>
        obtain ⟨rfl, rfl⟩ := rest
        exact reaches_some.mpr ⟨rfl, rfl, settled⟩
      | true =>
        simp only [Safe, if_true, ends_bind] at rest
        obtain ⟨⟨ended, after⟩, evaluated, outcome, step, rest⟩ := rest
        refine Reaches.bind (sound.tracks.plain settled evaluated) ?_
        rintro ⟨value, s''⟩ ⟨rfl, encoded⟩
        cases outcome with
        | inr ending =>
          obtain ⟨rfl, rfl⟩ := ends_pair rest
          simp only [afterBody_ends head encoded step]
          exact reaches_some.mpr ⟨settle_break_world, settle_loop label encoded step⟩
        | inl next =>
          obtain ⟨rfl, -⟩ := continue_loop head encoded step
          obtain ⟨s₃, goes, there, cleared⟩ := afterBody_continues head encoded step
          simp only [goes]
          refine Reaches.bind (sound.values.operand cleared (there ▸ rest)) ?_
          rintro ⟨updated, s₄⟩ (⟨calm, rest⟩ | ⟨raised, rfl, rfl, failed⟩)
          · simp only [calm.no_error, Bool.false_eq_true, if_false]
            exact ih next calm rest
          · simp only [failed.error, if_true]
            exact reaches_some.mpr ⟨rfl, failed⟩
    · obtain ⟨skipped, ends⟩ := sound.body_failed body label failed
      cases go with
      | false => exact reaches_some.mpr ⟨rfl, failed⟩
      | true =>
        simp only [Bool.not_true, Bool.false_eq_true, if_false, skipped,
          bind_eq_bind, bind_some, ends]
        exact reaches_some.mpr ⟨rfl, failed⟩

theorem eval_for_tracks {turns : Nat} {init test update : ASTNode}
    (head : s.pending_label = labels.head?) (clear : Clear false { s with pending_label := none })
    (safe : Safe (refFor host ref turns init test update body labels s.world) completion world) :
    Follows (completion.absorb s.pending_label) world
      (eval_for host eval turns init test update body s) := by
  simp only [Safe, refFor, ends_bind, ends_pure, mk.injEq] at safe
  obtain ⟨⟨ended, after⟩, evaluated, rfl, rfl⟩ := safe
  refine Reaches.bind (sound.values.operand (clear.world _) evaluated) ?_
  rintro ⟨value, s'⟩ (⟨settled, rest⟩ | ⟨raised, rfl, rfl, failed⟩)
  · simp only [settled.no_error, Bool.false_eq_true, if_false]
    exact (forTurns_tracks sound head turns host.undefined settled rest).pop_scope host
  · simp only [failed.error, if_true]
    exact reaches_some.mpr ⟨rfl, failed.world _⟩

end

def ItemsTrack (next : Nat → Interp V W → Option (Option V × Interp V W))
    (refNext : Nat → W → (Option V → W → Noted (Ending V W)) → Noted (Ending V W)) : Prop :=
  ∀ i (s : Interp V W) goOn (completion : Completion V) world, Clear false s →
    Safe (refNext i s.world goOn) completion world →
    Reaches (next i s) fun (item, s') =>
      (Clear false s' ∧ Safe (goOn item s'.world) completion world) ∨
        (item = none ∧ ∃ raised, completion = .throw raised false ∧ s'.world = world ∧
          Failed false raised s')

variable {next : Nat → Interp V W → Option (Option V × Interp V W)}

theorem itemTurns_stopped {assign : V → W → Prog V W} (turns i : Nat) (result : V)
    (stopped : s.stopped = true) :
    itemTurns host eval assign body label next turns i result s = some (result, s) := by
  cases turns <;> simp only [itemTurns, stopped, if_true]

/-- The turns of a loop over items go on as the meaning says. -/
theorem itemTurns_tracks (sound : Sound host eval ref) {assign : V → W → Prog V W}
    {refNext : Nat → W → (Option V → W → Noted (Ending V W)) → Noted (Ending V W)}
    (items : ItemsTrack next refNext) (head : label = labels.head?) (turns i : Nat) (result : V)
    (clear : Clear false s)
    (safe : Safe (refItemTurns ref assign body labels refNext turns i result s.world)
      completion world) :
    Reaches (itemTurns host eval assign body label next turns i result s) fun (value, s') =>
      s'.world = world ∧ Encodes (completion.absorb label) value (s'.settle_break label) := by
  induction turns generalizing s i result with
  | zero => simp [Safe, refItemTurns] at safe
  | succ turns ih =>
    simp only [itemTurns, clear.stopped, Bool.false_eq_true, if_false]
    refine Reaches.bind (items i s _ completion world clear safe) ?_
    rintro ⟨item, s₁⟩ (⟨settled, rest⟩ | ⟨rfl, raised, rfl, rfl, failed⟩)
    · cases item with
      | none =>
        obtain ⟨rfl, rfl⟩ := ends_pair rest
        refine reaches_some.mpr ⟨rfl, ?_⟩
        rw [settle_break_other settled.no_break]
        exact ⟨rfl, settled⟩
      | some item =>
        simp only [Safe, ends_bind] at rest
        obtain ⟨⟨assigned, before⟩, given, rest⟩ := rest
        refine Reaches.bind
          (runProg_tracks sound.tracks sound.values (assign item s₁.world) settled given) ?_
        rintro ⟨ignored, s₂⟩ ⟨rfl, taken⟩
        rcases taken.split with ⟨rfl, settled⟩ | ⟨raised, rfl, failed⟩
        · simp only [ends_bind] at rest
          obtain ⟨⟨ended, after⟩, evaluated, outcome, step, rest⟩ := rest
          refine Reaches.bind (sound.tracks.plain settled evaluated) ?_
          rintro ⟨value, s₃⟩ ⟨rfl, encoded⟩
          cases outcome with
          | inl next =>
            obtain ⟨rfl, ⟨continues, clear⟩ | ⟨continues, mine, -, -, -, clear⟩⟩ :=
              continue_loop head encoded step
            · simp only [continues, Bool.false_eq_true, if_false]
              exact ih (i + 1) next clear rest
            · simp only [continues, mine, if_true]
              exact ih (i + 1) next clear rest
          | inr ending =>
            obtain ⟨rfl, rfl⟩ := ends_pair rest
            have settled := settle_loop label encoded step
            rcases loop_ended head encoded step with ⟨continues, other⟩ | ⟨other, stopped⟩
            · simp only [continues, other, Bool.false_eq_true, if_true, if_false]
              exact reaches_some.mpr ⟨rfl, settled⟩
            · simp only [other, Bool.false_eq_true, if_false]
              rw [itemTurns_stopped turns (i + 1) value stopped]
              exact reaches_some.mpr ⟨rfl, settled⟩
        · obtain ⟨rfl, rfl⟩ := ends_pair rest
          rw [sound.idle body s₂ failed.error]
          simp only [bind_eq_bind, bind_some, failed.no_continue,
            Bool.false_eq_true, if_false]
          rw [itemTurns_stopped turns (i + 1) host.undefined failed.stopped]
          refine reaches_some.mpr ⟨rfl, ?_⟩
          rw [settle_break_other failed.no_break]
          exact failed
    · refine reaches_some.mpr ⟨rfl, ?_⟩
      rw [settle_break_other failed.no_break]
      exact failed

theorem nextName_tracks (names : List V) :
    ItemsTrack (W := W) (nextName names) (refNextName names) := by
  intro i s goOn completion world clear safe
  exact reaches_some.mpr (.inl ⟨clear, safe⟩)

theorem nextItem_tracks (sound : Sound host eval ref) (count : Nat) (item : Nat → W → Prog V W) :
    ItemsTrack (nextItem host eval count item) (refNextItem ref count item) := by
  intro i s goOn completion world clear safe
  unfold nextItem
  unfold refNextItem at safe
  by_cases more : i < count
  · rw [if_pos more] at safe ⊢
    refine Reaches.bind (read_tracks sound.tracks sound.values clear safe) ?_
    rintro ⟨value, s₁⟩ read
    exact reaches_some.mpr (.inl read)
  · rw [if_neg more] at safe ⊢
    exact reaches_some.mpr (.inl ⟨clear, safe⟩)

theorem nextResult_tracks (sound : Sound host eval ref) (iter next_fn : V) :
    ItemsTrack (nextResult host eval iter next_fn) (refNextResult host ref iter next_fn) := by
  intro i s goOn completion world clear safe
  simp only [Safe, refNextResult, ends_bind] at safe
  obtain ⟨⟨called, after⟩, evaluated, rest⟩ := safe
  refine Reaches.bind (runProg_tracks sound.tracks sound.values _ clear evaluated) ?_
  rintro ⟨nr, s'⟩ ⟨rfl, encoded⟩
  rcases encoded.split with ⟨rfl, settled⟩ | ⟨raised, rfl, failed⟩
  · dsimp only
    rw [if_neg settled.error_ne]
    refine Reaches.bind (read_tracks sound.tracks sound.values settled rest) ?_
    rintro ⟨done, s₁⟩ ⟨settled, rest⟩
    cases finished : host.toBool done with
    | true =>
      simp only [finished, if_true] at rest ⊢
      exact reaches_some.mpr (.inl ⟨settled, rest⟩)
    | false =>
      simp only [finished, Bool.false_eq_true, if_false] at rest ⊢
      refine Reaches.bind (read_tracks sound.tracks sound.values settled rest) ?_
      rintro ⟨value, s₂⟩ read
      exact reaches_some.mpr (.inl read)
  · obtain ⟨rfl, rfl⟩ := ends_pair rest
    simp only [failed.error, if_true]
    exact reaches_some.mpr (.inr ⟨rfl, raised, rfl, rfl, failed⟩)

theorem leaveLoop {run : Option (V × Interp V W)} {ended : Completion V} {after : W}
    (reached : Reaches run fun (value, s') =>
      s'.world = after ∧ Encodes ended value (s'.settle_break label)) :
    Follows ended (host.pop_scope after)
      (run >>= fun (result, s) => some (result, (s.settle_break label).pop_scope host)) := by
  refine Reaches.bind reached ?_
  rintro ⟨value, s'⟩ ⟨rfl, encoded⟩
  refine reaches_some.mpr ⟨?_, encoded.world _⟩
  simp only [Interp.pop_scope, settle_break_world]

theorem eval_for_in_tracks (sound : Sound host eval ref) {turns : Nat} {each source : ASTNode}
    (head : s.pending_label = labels.head?) (clear : Clear false { s with pending_label := none })
    (safe : Safe (refForIn host ref turns each source body labels s.world) completion world) :
    Follows (completion.absorb s.pending_label) world
      (eval_for_in host eval turns each source body s) := by
  refine Reaches.bind (sound.values.operand clear safe) ?_
  rintro ⟨value, s'⟩ (⟨settled, rest⟩ | ⟨raised, rfl, rfl, failed⟩)
  · dsimp only
    rw [if_neg settled.error_ne]
    refine Reaches.bind (read_tracks sound.tracks sound.values settled rest) ?_
    rintro ⟨ignored, s₁⟩ ⟨listed, rest⟩
    simp only [Safe, ends_bind, ends_pure, mk.injEq] at rest
    obtain ⟨⟨ended, after⟩, evaluated, rfl, rfl⟩ := rest
    exact leaveLoop (itemTurns_tracks sound (nextName_tracks _) head turns 0 host.undefined
      (listed.world _) evaluated)
  · simp only [failed.error, if_true]
    exact reaches_some.mpr ⟨rfl, failed⟩

theorem not_iterable_tracks (host : Host V W) (label : Option Name) (clear : Clear false s) :
    Follows (.throw (.engine "value is not iterable") false) (host.pop_scope s.world)
      (some (host.undefined, ((s.raise host (.engine "value is not iterable")).settle_break
        label).pop_scope host)) := by
  have failed := clear.raise host (.engine "value is not iterable")
  refine reaches_some.mpr ⟨?_, ?_⟩
  · simp only [Interp.pop_scope, settle_break_world]
    rfl
  · rw [settle_break_other failed.no_break]
    exact Failed.world failed _

/-- `for-of` ends as its meaning says. -/
theorem eval_for_of_tracks (sound : Sound host eval ref) {turns : Nat} {each source : ASTNode}
    (head : s.pending_label = labels.head?) (clear : Clear false { s with pending_label := none })
    (safe : Safe (refForOf host ref turns each source body labels s.world) completion world) :
    Follows (completion.absorb s.pending_label) world
      (eval_for_of host eval turns each source body s) := by
  refine Reaches.bind (sound.values.operand clear safe) ?_
  rintro ⟨value, s'⟩ (⟨settled, rest⟩ | ⟨raised, rfl, rfl, failed⟩)
  · dsimp only
    rw [if_neg settled.error_ne]
    have inner : Clear false (s'.push_scope host) := settled.world _
    simp only [Safe, ends_bind, ends_pure, mk.injEq] at rest
    obtain ⟨⟨ended, after⟩, evaluated, rfl, rfl⟩ := rest
    have same : (s'.push_scope host).world = host.push_scope s'.world := rfl
    rw [same]
    cases kind : host.iteration value (host.push_scope s'.world) with
    | items count item =>
      simp only [kind, refIteration] at evaluated
      exact leaveLoop (itemTurns_tracks sound (nextItem_tracks sound count item) head turns 0
        host.undefined inner evaluated)
    | object =>
      simp only [kind, refIteration] at evaluated
      refine Reaches.bind (read_tracks sound.tracks sound.values inner evaluated) ?_
      rintro ⟨iter_fn, s₁⟩ ⟨settled, evaluated⟩
      cases callable : host.is_function iter_fn with
      | false =>
        simp only [callable, Bool.false_eq_true, if_false] at evaluated ⊢
        obtain ⟨rfl, rfl⟩ := ends_pair evaluated
        exact not_iterable_tracks host _ settled
      | true =>
        simp only [callable, if_true, Safe, ends_bind] at evaluated ⊢
        obtain ⟨⟨opened, before⟩, started, evaluated⟩ := evaluated
        refine Reaches.bind (runProg_tracks sound.tracks sound.values _ settled started) ?_
        rintro ⟨iter, s₂⟩ ⟨rfl, encoded⟩
        rcases encoded.split with ⟨rfl, settled⟩ | ⟨raised, rfl, failed⟩
        · rw [if_neg settled.error_ne]
          cases object : host.isObject iter with
          | false =>
            simp only [object, Bool.false_eq_true, if_false] at evaluated
            obtain ⟨rfl, rfl⟩ := ends_pair evaluated
            refine reaches_some.mpr ⟨?_, rfl, ?_⟩
            · simp only [Interp.pop_scope, settle_break_world]
            · rw [settle_break_other settled.no_break]
              exact settled.world _
          | true =>
            simp only [object, if_true] at evaluated
            refine Reaches.bind (read_tracks sound.tracks sound.values settled evaluated) ?_
            rintro ⟨next_fn, s₃⟩ ⟨settled, evaluated⟩
            exact leaveLoop (itemTurns_tracks sound (nextResult_tracks sound iter next_fn)
              head turns 0 host.undefined settled evaluated)
        · obtain ⟨rfl, rfl⟩ := ends_pair evaluated
          simp only [failed.error, if_true]
          exact reaches_some.mpr ⟨rfl, failed.world _⟩
    | notIterable =>
      simp only [kind, refIteration] at evaluated
      obtain ⟨rfl, rfl⟩ := ends_pair evaluated
      exact not_iterable_tracks host _ inner
  · simp only [failed.error, if_true]
    exact reaches_some.mpr ⟨rfl, failed⟩

end Loops

/-! ## `switch` -/

section Switch

variable {label : Option Name} {value test : V} {ended : Completion V}

/-- The end of a statement in a `switch`, when it is not the end of the statements there. -/
def leavesSwitch (rest : List ASTNode) (ended completion : Completion V) : Prop :=
  match ended with
  | .normal _ => False
  | .break none value => completion = .normal value
  | .continue _ _ => completion = ended ∧ rest = []
  | ended => completion = ended

theorem caseItems_stopped (items : List ASTNode) (result : V) (stopped : s.stopped = true) :
    caseItems eval items result s = some (result, s) := by
  cases items with
  | nil => rfl
  | cons item items => simp [caseItems, stopped]

/-- The statements of a clause run on, or end the switch as the meaning says. -/
theorem caseItems_tracks (sound : Sound host eval ref) (items rest : List ASTNode) (result : V)
    (clear : Clear false s)
    (safe : Safe (refCaseItems ref (items ++ rest) result s.world) completion world) :
    Reaches (caseItems eval items result s) fun (value, s') =>
      (Clear false s' ∧ Safe (refCaseItems ref rest value s'.world) completion world) ∨
        ∃ ended, Encodes ended value s' ∧ s'.world = world ∧
          leavesSwitch rest ended completion := by
  induction items generalizing s result with
  | nil => exact reaches_some.mpr (.inl ⟨clear, safe⟩)
  | cons item items ih =>
    simp only [cons_append, Safe, refCaseItems, ends_bind] at safe
    obtain ⟨⟨ended, after⟩, evaluated, left⟩ := safe
    simp only [caseItems, clear.stopped, Bool.false_eq_true, if_false]
    refine Reaches.bind (sound.tracks.plain clear evaluated) ?_
    rintro ⟨value, s'⟩ ⟨rfl, encoded⟩
    cases ended with
    | normal result =>
      obtain ⟨rfl, settled⟩ := encoded
      exact ih value settled left
    | «return» result =>
      obtain ⟨rfl, rfl⟩ := ends_pair left
      rw [caseItems_stopped items value (by simp [Interp.stopped, encoded.2.has_returned])]
      exact reaches_some.mpr (.inr ⟨_, encoded, rfl, rfl⟩)
    | throw raised returning =>
      obtain ⟨rfl, rfl⟩ := ends_pair left
      rw [caseItems_stopped items value (Failed.stopped encoded)]
      exact reaches_some.mpr (.inr ⟨_, encoded, rfl, rfl⟩)
    | «break» target result =>
      have stopped : s'.stopped = true := by simp [Interp.stopped, encoded.2.1]
      rw [caseItems_stopped items value stopped]
      refine reaches_some.mpr (.inr ⟨_, encoded, ?_⟩)
      cases target <;> simp only [ends_pure, mk.injEq] at left <;>
        exact ⟨left.2, left.1.symm⟩
    | «continue» target result =>
      simp only [ends_bind, ends_note, ends_pure, mk.injEq] at left
      obtain ⟨-, quiet, rfl, rfl⟩ := left
      have none_left : items ++ rest = [] := by
        by_contra more
        cases quiet (by simpa using more)
      obtain ⟨rfl, rfl⟩ := List.append_eq_nil_iff.mp none_left
      exact reaches_some.mpr (.inr ⟨_, encoded, rfl, rfl, rfl⟩)

theorem caseMatched_matched (case_node : ASTNode) :
    caseMatched host eval test case_node true s = some (.ok true, s) := by
  cases case_node <;> rfl

theorem switchCases_empty (cases : List ASTNode) (result : V) (empty : caseStatements cases = [])
    (going : s.stopped = false) :
    switchCases host eval test label cases true result s = some (result, s) := by
  induction cases with
  | nil => rfl
  | cons case_node cases ih =>
    simp only [caseStatements, flatMap_cons, append_eq_nil_iff] at empty
    obtain ⟨breaks, returned, error⟩ : s.break_target = false ∧ s.has_returned = false ∧
        s.error_flag = false := by
      simpa [Interp.stopped, and_assoc] using going
    simp only [switchCases, caseMatched_matched, empty.1, caseItems, breaks, returned, error,
      bind_eq_bind, bind_some, Bool.or_self, Bool.false_eq_true, if_false]
    exact ih empty.2

/-- Behind the matching clause the others are fallen into. -/
theorem switchCases_matched (sound : Sound host eval ref) (cases : List ASTNode) (result : V)
    (clear : Clear false s)
    (safe : Safe (refCaseItems ref (caseStatements cases) result s.world) completion world) :
    Follows (completion.absorb label) world
      (switchCases host eval test label cases true result s) := by
  induction cases generalizing s result with
  | nil =>
    simp only [caseStatements, flatMap_nil, Safe, refCaseItems] at safe
    obtain ⟨rfl, rfl⟩ := ends_pair safe
    exact reaches_some.mpr ⟨rfl, rfl, clear⟩
  | cons case_node cases ih =>
    simp only [switchCases, caseMatched_matched, bind_eq_bind, bind_some]
    refine Reaches.bind (caseItems_tracks sound (caseBody case_node) _ result clear safe) ?_
    rintro ⟨value, s'⟩ (⟨settled, rest⟩ | ⟨ended, encoded, rfl, leaves⟩)
    · simp only [settled.no_break, settled.has_returned, settled.no_error, Bool.or_self,
        Bool.false_eq_true, if_false]
      exact ih value settled rest
    · cases ended with
      | normal result => exact False.elim leaves
      | «break» target result =>
        simp only [encoded.2.1, if_true]
        refine reaches_some.mpr ⟨settle_break_world, ?_⟩
        have settled := settle_break_encodes label encoded
        cases target with
        | none | some name =>
          cases leaves
          simpa [Completion.absorb] using settled
      | «continue» target result =>
        obtain ⟨rfl, empty⟩ := leaves
        have going : s'.stopped = false := encoded.2.2.2.stopped
        obtain ⟨breaks, returned, error⟩ : s'.break_target = false ∧
            s'.has_returned = false ∧ s'.error_flag = false := by
          simpa [Interp.stopped, and_assoc] using going
        simp only [breaks, returned, error, Bool.or_self, Bool.false_eq_true, if_false]
        rw [switchCases_empty cases value empty going]
        exact reaches_some.mpr ⟨rfl, encoded⟩
      | «return» result =>
        cases leaves
        simp only [encoded.2.no_break, encoded.2.has_returned, Bool.true_or,
          Bool.false_eq_true, if_true, if_false]
        exact reaches_some.mpr ⟨rfl, encoded⟩
      | throw raised returning =>
        cases leaves
        simp only [Failed.no_break encoded, Failed.error encoded, Bool.or_true,
          Bool.false_eq_true, if_true, if_false]
        exact reaches_some.mpr ⟨rfl, encoded⟩

theorem switchCases_tracks (sound : Sound host eval ref) (cases : List ASTNode)
    (clear : Clear false s)
    (safe : Safe (refCases host ref test cases s.world) completion world) :
    Follows (completion.absorb label) world
      (switchCases host eval test label cases false host.undefined s) := by
  induction cases generalizing s with
  | nil =>
    obtain ⟨rfl, rfl⟩ := ends_pair safe
    exact reaches_some.mpr ⟨rfl, rfl, clear⟩
  | cons case_node cases ih =>
    cases case_node with
    | defaultClause body =>
      exact switchCases_matched sound (.defaultClause body :: cases) host.undefined clear safe
    | caseClause cond body =>
      simp only [switchCases, caseMatched, Bool.false_eq_true, if_false]
      rw [bind_eq_bind, bind_eq_bind, bind_assoc]
      refine Reaches.bind (sound.values.operand clear safe) ?_
      rintro ⟨case_test, s'⟩ (⟨settled, rest⟩ | ⟨raised, rfl, rfl, failed⟩)
      · rw [if_neg settled.error_ne]
        cases equal : host.strict_eq test case_test with
        | true =>
          simp only [Safe, equal, if_true] at rest
          have entered : Follows (completion.absorb label) world
              (switchCases host eval test label (.caseClause cond body :: cases) true
                host.undefined s') :=
            switchCases_matched sound _ host.undefined settled rest
          exact entered
        | false =>
          simp only [Safe, equal, Bool.false_eq_true, if_false] at rest
          exact ih settled rest
      · simp only [failed.error, if_true]
        exact reaches_some.mpr ⟨rfl, failed⟩
    | _ => exact ih clear safe

theorem eval_switch_tracks (sound : Sound host eval ref) {node : ASTNode} {cases : List ASTNode}
    (clear : Clear false { s with pending_label := none })
    (safe : Safe (refSwitch host ref node cases s.world) completion world) :
    Follows (completion.absorb s.pending_label) world (eval_switch host eval node cases s) := by
  refine Reaches.bind (sound.values.operand clear safe) ?_
  rintro ⟨value, s'⟩ (⟨settled, rest⟩ | ⟨raised, rfl, rfl, failed⟩)
  · dsimp only
    rw [if_neg settled.error_ne]
    exact switchCases_tracks sound cases settled rest
  · simp only [failed.error, if_true]
    exact reaches_some.mpr ⟨rfl, failed⟩

end Switch

/-! ## Labels and jumps -/

def Completion.settleLabel (name : Name) : Completion V → Completion V
  | .break (some target) value =>
    if target = name then .normal value else .break (some target) value
  | completion => completion

theorem Completion.settleLabel_absorb (name : Name) (completion : Completion V) :
    (completion.absorb (some name)).settleLabel name = completion.settleLabel name := by
  cases completion with
  | «break» target value =>
    cases target with
    | none => rfl
    | some target =>
      by_cases same : name = target
      · simp [Completion.absorb, Completion.settleLabel, same]
      · simp [Completion.absorb, Completion.settleLabel, same]
  | _ => rfl

variable {value : V}

theorem settle_label_encodes {name : Name} (encoded : Encodes completion value s) :
    Encodes (completion.settleLabel name) value (s.settle_label (some name)) := by
  unfold Interp.settle_label
  cases completion with
  | normal result =>
    rw [if_neg fun broken => by simp [encoded.2.no_break] at broken]
    exact encoded
  | «continue» target result =>
    have no_break : s.break_target = false := encoded.2.2.2.no_break
    rw [if_neg fun broken => by simp [no_break] at broken]
    exact encoded
  | «return» result =>
    rw [if_neg fun broken => by simp [encoded.2.no_break] at broken]
    exact encoded
  | throw raised returning =>
    rw [if_neg fun broken => by simp [Failed.no_break encoded] at broken]
    exact encoded
  | «break» target result =>
    obtain ⟨rfl, breaks, held, clear⟩ := encoded
    cases target with
    | none =>
      rw [if_neg fun broken => broken.2.1 held]
      exact ⟨rfl, breaks, held, clear⟩
    | some target =>
      obtain ⟨text, nonempty⟩ := held
      by_cases same : target = name
      · subst same
        rw [if_pos ⟨breaks, nonempty, by simp [text]⟩]
        simp only [Completion.settleLabel, if_true]
        exact ⟨rfl, clear⟩
      · have other : ¬ (some name).map labelBytes = some s.break_label := by
          rw [text, map_some, some_inj]
          exact fun equal => same (labelBytes_injective equal).symm
        rw [if_neg fun broken => other broken.2.2]
        simp only [Completion.settleLabel, same, if_false]
        exact ⟨rfl, breaks, ⟨text, nonempty⟩, clear⟩

theorem Encodes.no_label (encoded : Encodes completion value s) : s.pending_label = none := by
  cases completion with
  | normal result => exact encoded.2.no_label
  | «break» target result | «continue» target result => exact encoded.2.2.2.no_label
  | «return» result => exact encoded.2.no_label
  | throw raised returning => exact Failed.no_label encoded

theorem settle_label_world : (s.settle_label label).world = s.world := by
  unfold Interp.settle_label
  split <;> rfl

variable {label : ASTNode}

/-- A labelled statement ends as its meaning says. -/
theorem eval_label_tracks (sound : Sound host eval ref) {labels : List Name} {stmt : ASTNode}
    (clear : Clear false s)
    (safe : Safe (refLabel ref labels label stmt s.world) completion world) :
    Follows completion world (eval_label eval label stmt s) := by
  cases label with
  | identifier name =>
    simp only [Safe, refLabel, ends_bind] at safe
    obtain ⟨⟨ended, after⟩, evaluated, rest⟩ := safe
    have settles : completion = ended.settleLabel name ∧ world = after := by
      cases ended with
      | «break» target value =>
        cases target with
        | none => simpa [Completion.settleLabel, eq_comm] using rest
        | some target =>
          by_cases same : target = name
          · simpa [Completion.settleLabel, same, eq_comm] using rest
          · simpa [Completion.settleLabel, same, eq_comm] using rest
      | _ => simpa [Completion.settleLabel, eq_comm] using rest
    obtain ⟨rfl, rfl⟩ := settles
    unfold eval_label
    cases breakable : is_breakable stmt with
    | true =>
      have ready : Ready (name :: labels) stmt { s with pending_label := some name } := by
        refine ⟨clear.update ?_, ?_⟩
        · simp [Interp.flags, clear.no_label]
        · simp [breakable]
      refine Reaches.bind (sound.tracks _ _ _ _ _ ready evaluated) ?_
      rintro ⟨value, s'⟩ ⟨rfl, encoded⟩
      have restored : { s' with pending_label := s.pending_label } = s' := by
        rw [clear.no_label, ← encoded.no_label]
      refine reaches_some.mpr ⟨?_, ?_⟩
      · rw [restored]
        exact settle_label_world
      · rw [restored, ← Completion.settleLabel_absorb]
        exact settle_label_encodes encoded
    | false =>
      have ready : Ready (name :: labels) stmt s := by
        refine ⟨clear.update ?_, ?_⟩
        · simp [Interp.flags, clear.no_label]
        · simp [breakable, clear.no_label]
      refine Reaches.bind (sound.tracks _ _ _ _ _ ready evaluated) ?_
      rintro ⟨value, s'⟩ ⟨rfl, encoded⟩
      rw [clear.no_label, Completion.absorb_none] at encoded
      exact reaches_some.mpr ⟨settle_label_world, settle_label_encodes encoded⟩
  | _ => simp [Safe, refLabel] at safe

theorem jumpLabel_text {name : Name} (nonempty : name ≠ "") (fits : name.utf8ByteSize < 64) :
    TextOf (some name) (jumpLabel (.identifier name)) := by
  have size : (labelBytes name).length = name.utf8ByteSize := by
    simp [labelBytes]
  have kept : jumpLabel (.identifier name) = labelBytes name := by
    exact take_of_length_le (by omega)
  refine ⟨kept, ?_⟩
  rw [kept, ← length_pos_iff, size]
  have := mt String.utf8ByteSize_eq_zero_iff.mp nonempty
  omega

theorem refJump_ends {jump : Option Name → Completion V} {before : W}
    (safe : Safe (refJump label jump before) completion world) :
    ∃ target, completion = jump target ∧ world = before ∧ TextOf target (jumpLabel label) := by
  cases label with
  | null =>
    simp only [Safe, refJump, ends_pure, mk.injEq] at safe
    exact ⟨none, safe.1.symm, safe.2.symm, rfl⟩
  | identifier name =>
    by_cases empty : name = ""
    · simp [Safe, refJump, empty] at safe
    · simp only [Safe, refJump, empty, if_false, ends_bind, ends_note, ends_pure,
        mk.injEq] at safe
      obtain ⟨-, fits, same, there⟩ := safe
      refine ⟨some name, same.symm, there.symm, jumpLabel_text empty ?_⟩
      by_contra long
      cases fits (by simpa using long)
  | _ => simp [Safe, refJump] at safe

theorem eval_break_tracks (clear : Clear false s)
    (safe : Safe (refJump label (fun target => .break target host.undefined) s.world)
      completion world) : Follows completion world (eval_break host label s) := by
  obtain ⟨target, rfl, rfl, text⟩ := refJump_ends safe
  refine reaches_some.mpr ⟨rfl, rfl, rfl, text, clear.update ?_⟩
  simp [Interp.flags, clear.no_break, clear.texts]

theorem eval_continue_tracks (clear : Clear false s)
    (safe : Safe (refJump label (fun target => .continue target host.undefined) s.world)
      completion world) : Follows completion world (eval_continue host label s) := by
  obtain ⟨target, rfl, rfl, text⟩ := refJump_ends safe
  refine reaches_some.mpr ⟨rfl, rfl, rfl, text, clear.update ?_⟩
  simp [Interp.flags, clear.no_continue, clear.texts]

/-! ## `return`, `throw` and `try` -/

theorem eval_return_tracks (sound : Sound host eval ref) {arg : ASTNode} (clear : Clear false s)
    (safe : Safe (refReturn ref arg s.world) completion world) :
    Follows completion world (eval_return host eval arg s) := by
  unfold refReturn at safe
  cases control : isControl arg with
  | true => simp [Safe, control] at safe
  | false =>
    simp only [Safe, control, Bool.false_eq_true, if_false, ends_bind] at safe
    obtain ⟨⟨ended, after⟩, evaluated, rest⟩ := safe
    have started : Clear true { s with has_returned := true } := clear.returning rfl
    refine Reaches.bind (sound.values arg _ true ended after control started evaluated) ?_
    rintro ⟨value, s'⟩ ⟨rfl, encoded⟩
    rcases encoded.split with ⟨rfl, settled⟩ | ⟨raised, rfl, failed⟩
    · obtain ⟨rfl, rfl⟩ := ends_pair rest
      exact reaches_some.mpr ⟨rfl, rfl, settled⟩
    · obtain ⟨rfl, rfl⟩ := ends_pair rest
      exact reaches_some.mpr ⟨rfl, failed.update rfl rfl rfl⟩

theorem eval_throw_tracks (sound : Sound host eval ref) {arg : ASTNode} (clear : Clear false s)
    (safe : Safe (refThrow ref arg s.world) completion world) :
    Follows completion world (eval_throw host eval arg s) := by
  refine Reaches.bind (sound.values.operand clear safe) ?_
  rintro ⟨value, s'⟩ (⟨settled, rest⟩ | ⟨raised, shape, there, failed⟩)
  · obtain ⟨rfl, rfl⟩ := ends_pair rest
    dsimp only
    rw [if_neg settled.error_ne]
    exact (settled.raise host _).follows _ rfl rfl
  · simp only [failed.error, if_true]
    exact failed.follows value shape there

theorem caughtValue_carries {raised : Raised V} (carries : s.Carries raised)
    (script : raised.isNative = false) : caughtValue host s = raised.value host s.world := by
  cases raised with
  | thrown value =>
    obtain ⟨pending, held⟩ := carries
    simp [caughtValue, Raised.value, pending, held]
  | native value message => cases script
  | engine message =>
    obtain ⟨pending, text⟩ := carries
    by_cases empty : message = ""
    · simp [caughtValue, Raised.value, pending, text, empty]
    · simp [caughtValue, Raised.value, pending, text, empty]

variable {catch_body : ASTNode}

/-- The body and the catch clause end as their meaning says. -/
theorem tryCatch_tracks (sound : Sound host eval ref)
    {catch_var : Option Name} {caught : Bool} (clear : Clear false s)
    (safe : Ends tolerated (refTryCatch host ref body catch_body catch_var s.world)
      (caught, completion, world)) :
    Reaches (tryCatch host eval body catch_body catch_var s) fun (value, taken, s') =>
      taken = caught ∧ s'.world = world ∧ Encodes completion value s' := by
  simp only [refTryCatch, ends_bind] at safe
  obtain ⟨⟨ended, after⟩, evaluated, rest⟩ := safe
  have start : Clear false { s with
      exception_pending := false
      error_flag := false
      world := predeclare host catch_body catch_var s.world } := by
    simp [Clear, Interp.flags, Flags.clear, clear.no_break, clear.no_continue,
      clear.has_returned, clear.no_label, clear.texts]
  refine Reaches.bind (sound.tracks.plain start evaluated) ?_
  rintro ⟨value, s₁⟩ ⟨rfl, encoded⟩
  have error := encoded.error_flag
  cases ended with
  | throw raised returning =>
    cases absent : isNull catch_body with
    | true =>
      simp only [absent, if_true, ends_pure, mk.injEq] at rest
      obtain ⟨rfl, rfl, rfl⟩ := rest
      simp only [error]
      exact reaches_some.mpr ⟨rfl, rfl, encoded⟩
    | false =>
      simp only [absent, Bool.false_eq_true, if_false, ends_bind, ends_note, ends_pure,
        mk.injEq] at rest
      obtain ⟨-, quiet, -, script, ⟨handled, later⟩, recovered, rfl, rfl, rfl⟩ := rest
      have completed : returning = false := by
        by_contra interrupted
        cases quiet (by simpa using interrupted)
      subst completed
      have bound : (bindCaught host catch_var
          ({ s₁ with error_flag := false }.push_scope host)).world =
            refBindCaught host catch_var raised (host.push_scope s₁.world) := by
        have carries : ({ s₁ with error_flag := false }.push_scope host).Carries raised := by
          have held := Failed.carries encoded
          cases raised <;> exact held
        cases catch_var with
        | none => rfl
        | some name =>
          have own : raised.isNative = false := by
            by_contra native
            cases script (by simpa using native)
          simp only [bindCaught, refBindCaught, caughtValue_carries carries own]
          rfl
      have entered : Clear false { bindCaught host catch_var
          ({ s₁ with error_flag := false }.push_scope host) with
            exception_pending := false } := by
        have failed : Failed false raised s₁ := encoded
        cases catch_var <;> exact failed.clear
      simp only [error, Bool.and_false, Bool.false_eq_true, if_false]
      refine Reaches.bind (sound.tracks.plain entered (bound ▸ recovered)) ?_
      rintro ⟨value, s₂⟩ ⟨rfl, encoded⟩
      exact reaches_some.mpr ⟨rfl, rfl, encoded.world _⟩
  | _ =>
    simp only [ends_pure, mk.injEq] at rest
    obtain ⟨rfl, rfl, rfl⟩ := rest
    simp only [error, Completion.isThrow, Bool.false_and, Bool.false_eq_true, if_false]
    exact reaches_some.mpr ⟨rfl, rfl, encoded⟩

variable {saved : Interp V W} {before : Completion V}

/-- Behind the finally clause the flags hold the completion that overrides. -/
theorem afterFinally_encodes {caught : Bool} {s s₁ : Interp V W}
    {left : V} {last : Completion V} (outside : saved.exception_pending = false)
    (reached : (before.isThrow || before.isJump) = false) (encoded : Encodes before value s)
    (ended : Encodes last left s₁) (fresh : (before.isReturn && last.isJump) = false) :
    Encodes (before.override host.undefined last)
      (afterFinally host catch_body caught saved s value left s₁).1
      (afterFinally host catch_body caught saved s value left s₁).2 := by
  unfold afterFinally
  cases last with
  | normal result =>
    have settled := ended.2
    simp only [settled.no_error, settled.has_returned, outside, Bool.and_false,
      Bool.false_and, Bool.false_eq_true, if_false]
    cases before with
    | normal result =>
      refine ⟨encoded.1, settled.update ?_⟩
      simp [Interp.flags, encoded.2.has_returned, settled.has_returned, settled.no_error]
    | «return» result =>
      refine ⟨?_, settled.returning ?_⟩
      · simp only [encoded.2.has_returned, if_true]
        exact encoded.1
      · simp [Interp.flags, encoded.2.has_returned, settled.no_error]
    | _ => cases reached
  | «return» result =>
    have settled := ended.2
    simp only [settled.no_error, settled.has_returned, Bool.false_eq_true, if_true, if_false]
    refine ⟨ended.1, settled.update ?_⟩
    simp [Interp.flags, settled.has_returned, settled.no_error]
  | throw raised returning =>
    simp only [Failed.error ended, if_true]
    refine Failed.update ended ?_ rfl rfl
    simp [Interp.flags, Failed.error ended]
  | «break» target result | «continue» target result =>
    obtain ⟨-, jumps, text, settled⟩ := ended
    have no_error : s₁.error_flag = false := settled.no_error
    have stays : s₁.has_returned = false := settled.has_returned
    cases before with
    | normal result =>
      simp only [no_error, stays, outside, Bool.and_false, Bool.false_and,
        Bool.false_eq_true, if_false]
      refine ⟨encoded.1, jumps, text, settled.update ?_⟩
      simp [Interp.flags, encoded.2.has_returned, stays, no_error]
    | «return» result => cases fresh
    | _ => cases reached

theorem afterFinally_world {caught : Bool} {s s₁ : Interp V W} {left : V} :
    (afterFinally host catch_body caught saved s value left s₁).2.world = s₁.world := by
  unfold afterFinally
  split
  · rfl
  · split
    · rfl
    · dsimp only
      split <;> rfl

variable {finally_body : ASTNode}

theorem refFinally_ends {ok : Hazard → Prop}
    {between : W} (within : ∀ hazard, ok hazard → tolerated hazard)
    (present : isNull finally_body = false)
    (ends : Ends ok (refFinally host ref finally_body before between) (completion, world)) :
    ∃ last, Ends ok (ref [] finally_body between) (last, world) ∧
      completion = before.override host.undefined last ∧
      (before.isThrow || before.isJump) = false ∧ (before.isReturn && last.isJump) = false ∧
      ((before.isReturn && last.isThrow) = true → ok .throwOverReturn) := by
  simp only [refFinally, present, Bool.false_eq_true, if_false, ends_bind, ends_note,
    ends_pure, mk.injEq] at ends
  obtain ⟨-, quiet, ⟨last, after⟩, evaluated, -, fresh, -, single, rfl, rfl⟩ := ends
  refine ⟨last, evaluated, rfl, ?_, ?_, single⟩
  · by_contra left
    cases within _ (quiet (eq_true_of_ne_false left))
  · by_contra left
    cases within _ (fresh (eq_true_of_ne_false left))

theorem Encodes.setAside (encoded : Encodes before value s)
    (reached : (before.isThrow || before.isJump) = false) :
    Clear false { s with has_returned := false } := by
  cases before with
  | normal result | «return» result => exact Clear.returning encoded.2 rfl
  | _ => cases reached

theorem finallyCheck_tracks (sound : Sound host eval ref) {caught : Bool} {s : Interp V W}
    (outside : saved.exception_pending = false) (encoded : Encodes before value s)
    (safe : Safe (refFinally host ref finally_body before s.world) completion world) :
    Follows completion world
      (finallyCheck host eval finally_body catch_body caught saved value s) := by
  unfold finallyCheck
  cases absent : isNull finally_body with
  | true =>
    simp only [Safe, refFinally, absent, if_true] at safe
    obtain ⟨rfl, rfl⟩ := ends_pair safe
    exact reaches_some.mpr ⟨rfl, encoded⟩
  | false =>
    obtain ⟨last, evaluated, rfl, reached, fresh, -⟩ :=
      refFinally_ends (fun _ fine => fine) absent safe
    refine Reaches.bind (sound.tracks.plain (encoded.setAside reached) evaluated) ?_
    rintro ⟨left, s₁⟩ ⟨rfl, ended⟩
    exact reaches_some.mpr ⟨afterFinally_world,
      afterFinally_encodes outside reached encoded ended fresh⟩

theorem Clear.caught {returned : Bool} {exception : Option V} (clear : Clear returned s) :
    Clear returned { s with
      exception_pending := false
      error_flag := false
      exception_value := exception } := by
  refine clear.update ?_
  simp [Interp.flags, clear.no_error, clear.no_exception]

theorem eval_try_tracks (sound : Sound host eval ref)
    {catch_var : Option Name} (clear : Clear false s)
    (safe : Safe (refTry host ref body catch_body finally_body catch_var s.world)
      completion world) :
    Follows completion world (eval_try host eval body catch_body finally_body catch_var s) := by
  simp only [Safe, refTry, ends_bind, ends_note, ends_pure, mk.injEq] at safe
  obtain ⟨⟨caught, before, between⟩, tried, ⟨after, last⟩, finished, -, quiet, rfl, rfl⟩ := safe
  refine Reaches.bind (tryCatch_tracks sound clear tried) ?_
  rintro ⟨value, taken, s₁⟩ ⟨rfl, rfl, encoded⟩
  refine Reaches.bind (finallyCheck_tracks sound clear.no_exception encoded finished) ?_
  rintro ⟨result, s₂⟩ ⟨rfl, encoded⟩
  cases taken with
  | false => exact reaches_some.mpr ⟨rfl, encoded⟩
  | true =>
    refine reaches_some.mpr ⟨rfl, ?_⟩
    cases after with
    | normal result =>
      obtain ⟨same, settled⟩ := encoded
      exact ⟨same, settled.caught⟩
    | «break» target result =>
      obtain ⟨same, breaks, text, settled⟩ := encoded
      exact ⟨same, breaks, text, settled.caught⟩
    | «continue» target result =>
      obtain ⟨same, continues, text, settled⟩ := encoded
      exact ⟨same, continues, text, settled.caught⟩
    | «return» result =>
      obtain ⟨same, settled⟩ := encoded
      exact ⟨same, settled.caught⟩
    | throw raised returning => cases quiet rfl

/-! ## All nodes -/

theorem dispatch_expression {node : ASTNode} (expression : isControl node = false)
    (present : node ≠ .null) (turns : Nat) :
    dispatch host eval turns node s = runProg host eval (host.expression node s.world) s := by
  cases node <;> first | exact absurd rfl present | rfl | cases expression

theorem meaningStep_expression {node : ASTNode} (expression : isControl node = false)
    (present : node ≠ .null) (turns : Nat) (labels : List Name) (world : W) :
    meaningStep host ref turns labels node world = refProg ref (host.expression node world) := by
  cases node <;> first | exact absurd rfl present | rfl | cases expression

/-- Every statement ends as its meaning says, if the evaluations inside do. -/
theorem dispatch_tracks (sound : Sound host eval ref) (turns : Nat) :
    Tracks (dispatch host eval turns) (meaningStep host ref turns) := by
  intro labels node s completion world ready safe
  have plain (loop : is_breakable node = false) {run : Option (V × Interp V W)}
      (follows : Clear false s → Follows completion world run) :
      Follows (completion.absorb s.pending_label) world run := by
    have none_left : s.pending_label = none := by simpa [loop] using ready.label
    rw [none_left, Completion.absorb_none]
    exact follows (ready.clear.update (by simp [Interp.flags, none_left]))
  cases control : isControl node with
  | false =>
    refine plain (by cases node <;> first | rfl | cases control) fun clear => ?_
    by_cases missing : node = .null
    · subst missing
      obtain ⟨rfl, rfl⟩ := ends_pair safe
      exact reaches_some.mpr ⟨rfl, rfl, clear⟩
    · rw [meaningStep_expression control missing] at safe
      rw [dispatch_expression control missing]
      exact (runProg_tracks sound.tracks sound.values _ clear safe).mono
        fun _ reached => ⟨reached.1, reached.2.encodes⟩
  | true =>
    cases node with
    | forStmt init test update body =>
      obtain ⟨head, clear⟩ := ready.start rfl
      exact eval_for_tracks sound head clear safe
    | whileStmt cond body =>
      obtain ⟨head, clear⟩ := ready.start rfl
      exact whileTurns_tracks sound head turns host.undefined clear safe
    | doWhile cond body =>
      obtain ⟨head, clear⟩ := ready.start rfl
      exact doWhileTurns_tracks sound head turns clear safe
    | forIn each source body =>
      obtain ⟨head, clear⟩ := ready.start rfl
      exact eval_for_in_tracks sound head clear safe
    | forOf each source body =>
      obtain ⟨head, clear⟩ := ready.start rfl
      exact eval_for_of_tracks sound head clear safe
    | switchStmt test cases => exact eval_switch_tracks sound ready.clear safe
    | debugger =>
      refine plain rfl fun clear => ?_
      obtain ⟨rfl, rfl⟩ := ends_pair safe
      exact reaches_some.mpr ⟨rfl, rfl, clear⟩
    | program items =>
      refine plain rfl fun clear => ?_
      simp only [meaningStep, refProgram, ends_bind] at safe
      obtain ⟨⟨ended, after⟩, evaluated, rest⟩ := safe
      cases jumps : ended.isJump with
      | true => simp [jumps] at rest
      | false =>
        simp only [jumps, Bool.false_eq_true, if_false] at rest
        obtain ⟨rfl, rfl⟩ := ends_pair rest
        exact eval_program_tracks sound.tracks items host.undefined clear evaluated jumps
    | block items =>
      exact plain rfl fun clear => eval_block_tracks sound.tracks items clear safe
    | exprStmt expr =>
      refine plain rfl fun clear => ?_
      have run : Safe (refOperand ref expr s.world fun value world =>
          pure (.normal value, world)) completion world := safe
      refine (sound.values.operand clear run).mono ?_
      rintro ⟨value, s'⟩ (⟨settled, rest⟩ | ⟨raised, rfl, rfl, failed⟩)
      · obtain ⟨rfl, rfl⟩ := ends_pair rest
        exact ⟨rfl, rfl, settled⟩
      · exact ⟨rfl, failed⟩
    | ifStmt cond body elseBody =>
      exact plain rfl fun clear => eval_if_tracks sound.tracks sound.values clear safe
    | breakStmt label =>
      exact plain rfl fun clear => eval_break_tracks clear safe
    | continueStmt label =>
      exact plain rfl fun clear => eval_continue_tracks clear safe
    | returnStmt arg =>
      exact plain rfl fun clear => eval_return_tracks sound clear safe
    | throwStmt arg =>
      exact plain rfl fun clear => eval_throw_tracks sound clear safe
    | tryStmt body catchBody finallyBody catchVar =>
      exact plain rfl fun clear => eval_try_tracks sound clear safe
    | labelStmt label stmt =>
      exact plain rfl fun clear => eval_label_tracks sound clear safe
    | withStmt obj body =>
      exact plain rfl fun clear => eval_with_tracks sound.tracks sound.values clear safe
    | _ => cases control

theorem interp_eval_node_sound (host : Host V W) (depth : Nat) :
    Sound host (interp_eval_node host depth) (meaning host depth) := by
  induction depth with
  | zero =>
    refine ⟨?_, ?_, ?_⟩
    · intro labels node s completion world ready safe
      simp [Safe, meaning] at safe
    · intro node s returned completion world expression clear safe
      simp [Safe, meaning] at safe
    · intro node s error
      simp [interp_eval_node, error]
  | succ depth ih =>
    refine ⟨?_, ?_, ?_⟩
    · intro labels node s completion world ready safe
      have no_error : s.error_flag = false := ready.clear.no_error
      simp only [interp_eval_node, no_error, Bool.false_eq_true, if_false]
      exact dispatch_tracks ih depth labels node s completion world ready safe
    · intro node s returned completion world expression clear safe
      simp only [interp_eval_node, clear.no_error, Bool.false_eq_true, if_false]
      by_cases missing : node = .null
      · subst missing
        obtain ⟨rfl, rfl⟩ := ends_pair safe
        exact reaches_some.mpr ⟨rfl, rfl, clear⟩
      · rw [dispatch_expression expression missing]
        simp only [Safe, meaning, meaningStep_expression expression missing] at safe
        exact runProg_tracks ih.tracks ih.values _ clear safe
    · intro node s error
      simp [interp_eval_node, error]

end TreeWalker
end LRJS
