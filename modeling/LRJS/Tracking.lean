import LRJS.Completions

/-!
# The flags track the completions

How the flags of the tree-walker encode a completion, and that every evaluator keeps the
encoding: when the evaluation of the children encodes their completions, and the run meets no
hazard, what the evaluator leaves in the flags encodes the completion of its node.
-/

namespace LRJS
namespace TreeWalker

open Monitored Partial Completion

variable {V W : Type}

structure Flags where
  break_target : Bool
  continue_target : Bool
  break_label : LabelText
  continue_label : LabelText
  pending_label : Option Name
  has_returned : Bool
  error_flag : Bool
  exception_pending : Bool

def Interp.flags (s : Interp V W) : Flags :=
  ⟨s.break_target, s.continue_target, s.break_label, s.continue_label, s.pending_label,
    s.has_returned, s.error_flag, s.exception_pending⟩

/-- The flags when no statement is being left; `returned` is the flag of a `return` whose
operand is being evaluated. -/
def Flags.clear (returned : Bool) : Flags :=
  ⟨false, false, [], [], none, returned, false, false⟩

def Clear (returned : Bool) (s : Interp V W) : Prop :=
  s.flags = Flags.clear returned

def Interp.Carries (raised : Raised V) (s : Interp V W) : Prop :=
  match raised with
  | .thrown value => s.exception_pending = true ∧ s.exception_value = some value
  | .native _ message =>
    s.exception_pending = true ∧ s.exception_value = none ∧ s.error_message = message
  | .engine message => s.exception_pending = false ∧ s.error_message = message

structure Failed (returned : Bool) (raised : Raised V) (s : Interp V W) : Prop where
  clear : Clear returned { s with error_flag := false, exception_pending := false }
  error : s.error_flag = true
  carries : s.Carries raised

def TextOf (target : Option Name) (text : LabelText) : Prop :=
  match target with
  | none => text = []
  | some name => text = labelBytes name ∧ text ≠ []

def Encodes (completion : Completion V) (value : V) (s : Interp V W) : Prop :=
  match completion with
  | .normal result => value = result ∧ Clear false s
  | .break target result =>
    value = result ∧ s.break_target = true ∧ TextOf target s.break_label ∧
      Clear false { s with break_target := false, break_label := [] }
  | .continue target result =>
    value = result ∧ s.continue_target = true ∧ TextOf target s.continue_label ∧
      Clear false { s with continue_target := false, continue_label := [] }
  | .return result => s.return_value = result ∧ Clear true s
  | .throw raised returning => Failed returning raised s

/-- What a loop or `switch` makes of a break to the label it was handed. -/
def Completion.absorb (pending : Option Name) : Completion V → Completion V
  | .break (some target) value =>
    if pending = some target then .normal value else .break (some target) value
  | completion => completion

def EncodesValue (returned : Bool) (completion : Completion V) (value : V) (s : Interp V W) :
    Prop :=
  match completion with
  | .normal result => value = result ∧ Clear returned s
  | .throw raised returning => returning = false ∧ Failed returned raised s
  | _ => False

def tolerated (hazard : Hazard) : Prop :=
  hazard = .throwOverReturn

abbrev Safe (run : Noted (Ending V W)) (completion : Completion V) (world : W) : Prop :=
  Ends tolerated run (completion, world)

structure Ready (labels : List Name) (node : ASTNode) (s : Interp V W) : Prop where
  clear : Clear false { s with pending_label := none }
  label : s.pending_label = if is_breakable node then labels.head? else none

def Tracks (eval : Eval V W) (ref : Meaning V W) : Prop :=
  ∀ labels node s completion world, Ready labels node s →
    Safe (ref labels node s.world) completion world →
    Reaches (eval node s) fun (value, s') =>
      s'.world = world ∧ Encodes (completion.absorb s.pending_label) value s'

/-- An evaluator of expressions does so even below a `return`. -/
def TracksValues (eval : Eval V W) (ref : Meaning V W) : Prop :=
  ∀ node s returned completion world, isControl node = false → Clear returned s →
    Safe (ref [] node s.world) completion world →
    Reaches (eval node s) fun (value, s') =>
      s'.world = world ∧ EncodesValue returned completion value s'

section Clear

variable {returned : Bool} {s s' : Interp V W}

section

variable (clear : Clear returned s)
include clear

theorem Clear.no_break : s.break_target = false :=
  congrArg Flags.break_target clear

theorem Clear.no_continue : s.continue_target = false :=
  congrArg Flags.continue_target clear

theorem Clear.no_label : s.pending_label = none :=
  congrArg Flags.pending_label clear

theorem Clear.has_returned : s.has_returned = returned :=
  congrArg Flags.has_returned clear

theorem Clear.no_error : s.error_flag = false :=
  congrArg Flags.error_flag clear

theorem Clear.no_exception : s.exception_pending = false :=
  congrArg Flags.exception_pending clear

theorem Clear.texts : s.break_label = [] ∧ s.continue_label = [] :=
  ⟨congrArg Flags.break_label clear, congrArg Flags.continue_label clear⟩

end

theorem Clear.stopped (clear : Clear false s) : s.stopped = false := by
  simp [Interp.stopped, clear.no_break, clear.has_returned, clear.no_error]

section

variable (clear : Clear returned s)
include clear

theorem Clear.error_ne : ¬ s.error_flag = true := by
  simp [clear.no_error]

theorem Clear.update (same : s'.flags = s.flags) : Clear returned s' :=
  same.trans clear

theorem Clear.returning {later : Bool}
    (same : s'.flags = { s.flags with has_returned := later }) : Clear later s' := by
  unfold Clear at clear ⊢
  rw [same, clear]
  rfl

theorem Clear.world (world : W) : Clear returned { s with world := world } :=
  clear

end

theorem Clear.ready (clear : Clear false s) (node : ASTNode) : Ready [] node s := by
  refine ⟨clear.update ?_, ?_⟩
  · simp [Interp.flags, clear.no_label]
  · rw [clear.no_label]
    cases is_breakable node <;> rfl

variable {raised : Raised V}

section

variable (failed : Failed returned raised s)
include failed

theorem Failed.no_break : s.break_target = false :=
  failed.clear.no_break

theorem Failed.no_continue : s.continue_target = false :=
  failed.clear.no_continue

theorem Failed.no_label : s.pending_label = none :=
  failed.clear.no_label

theorem Failed.update
    (same : s'.flags = s.flags) (exception : s'.exception_value = s.exception_value)
    (message : s'.error_message = s.error_message) : Failed returned raised s' := by
  have pending : s'.exception_pending = s.exception_pending := congrArg Flags.exception_pending same
  refine ⟨?_, (congrArg Flags.error_flag same).trans failed.error, ?_⟩
  · refine failed.clear.update ?_
    simp only [Interp.flags, Flags.mk.injEq] at same
    simp [Interp.flags, same]
  · have carries := failed.carries
    cases raised <;> simpa only [Interp.Carries, pending, exception, message] using carries

theorem Failed.world (world : W) : Failed returned raised { s with world := world } :=
  failed.update rfl rfl rfl

theorem Failed.stopped : s.stopped = true := by
  simp [Interp.stopped, failed.error]

end

/-- Raising an error from clear flags fails with it. -/
theorem Clear.raise (host : Host V W) (clear : Clear returned s) (raised : Raised V) :
    Failed returned raised (s.raise host raised) := by
  have settled : Clear returned { s.raise host raised with
      error_flag := false
      exception_pending := false } := by
    refine clear.update ?_
    cases raised <;> simp [Interp.flags, Interp.raise, clear.no_error, clear.no_exception]
  cases raised with
  | thrown value => exact ⟨settled, rfl, rfl, rfl⟩
  | native value message => exact ⟨settled, rfl, rfl, rfl, rfl⟩
  | engine message => exact ⟨settled, rfl, clear.no_exception, rfl⟩

end Clear

section Encodes

variable {value : V} {s : Interp V W}

@[simp] theorem Completion.absorb_none (completion : Completion V) :
    completion.absorb none = completion := by
  cases completion with
  | «break» target value => cases target <;> simp [absorb]
  | _ => rfl

variable {completion : Completion V}

section

variable (encoded : Encodes completion value s)
include encoded

theorem Encodes.world (world : W) : Encodes completion value { s with world := world } := by
  cases completion with
  | normal result => exact ⟨encoded.1, encoded.2.world world⟩
  | «break» target result | «continue» target result =>
    exact ⟨encoded.1, encoded.2.1, encoded.2.2.1, encoded.2.2.2.world world⟩
  | «return» result => exact ⟨encoded.1, encoded.2.world world⟩
  | throw raised returning => exact Failed.world encoded world

theorem Encodes.error_flag : s.error_flag = completion.isThrow := by
  cases completion with
  | normal result => exact encoded.2.no_error
  | «break» target result | «continue» target result => exact encoded.2.2.2.no_error
  | «return» result => exact encoded.2.no_error
  | throw raised returning => exact encoded.error

theorem Encodes.stopped : (s.stopped || s.continue_target) = !completion.isNormal := by
  cases completion with
  | normal result =>
    simp [isNormal, encoded.2.stopped, encoded.2.no_continue]
  | «break» target result => simp [isNormal, Interp.stopped, encoded.2.1]
  | «continue» target result => simp [isNormal, encoded.2.1]
  | «return» result => simp [isNormal, Interp.stopped, encoded.2.has_returned]
  | throw raised returning => simp [isNormal, Failed.stopped encoded]

end

theorem EncodesValue.encodes
    (encoded : EncodesValue false completion value s) : Encodes completion value s := by
  cases completion with
  | normal result => exact encoded
  | throw raised returning =>
    obtain ⟨rfl, failed⟩ := encoded
    exact failed
  | _ => exact False.elim encoded

theorem EncodesValue.split {returned : Bool} (encoded : EncodesValue returned completion value s) :
    (completion = .normal value ∧ Clear returned s) ∨
      ∃ raised, completion = .throw raised false ∧ Failed returned raised s := by
  cases completion with
  | normal result =>
    obtain ⟨rfl, settled⟩ := encoded
    exact .inl ⟨rfl, settled⟩
  | throw raised returning =>
    obtain ⟨rfl, failed⟩ := encoded
    exact .inr ⟨raised, rfl, failed⟩
  | _ => exact False.elim encoded

end Encodes

section Expressions

variable {host : Host V W} {eval : Eval V W} {ref : Meaning V W}
variable {returned : Bool} {s : Interp V W} {completion : Completion V} {world : W}

theorem Tracks.plain (tracks : Tracks eval ref) {node : ASTNode} (clear : Clear false s)
    (safe : Safe (ref [] node s.world) completion world) :
    Reaches (eval node s) fun (value, s') => s'.world = world ∧ Encodes completion value s' := by
  have reached := tracks [] node s completion world (clear.ready node) safe
  rw [clear.no_label] at reached
  simpa only [absorb_none] using reached

/-- An operand has the value of its meaning, or fails as it does. -/
theorem TracksValues.operand (values : TracksValues eval ref) {node : ASTNode}
    {next : V → W → Noted (Ending V W)} (clear : Clear returned s)
    (safe : Safe (refOperand ref node s.world next) completion world) :
    Reaches (eval node s) fun (value, s') =>
      (Clear returned s' ∧ Safe (next value s'.world) completion world) ∨
        ∃ raised, completion = .throw raised false ∧ s'.world = world ∧
          Failed returned raised s' := by
  unfold refOperand at safe
  cases control : isControl node with
  | true => simp [Safe, control] at safe
  | false =>
    simp only [Safe, control, Bool.false_eq_true, if_false, ends_bind] at safe
    obtain ⟨⟨ended, after⟩, evaluated, rest⟩ := safe
    apply (values node s returned ended after control clear evaluated).mono
    rintro ⟨value, s'⟩ ⟨rfl, encoded⟩
    cases ended with
    | normal result =>
      obtain ⟨rfl, settled⟩ := encoded
      exact .inl ⟨settled, rest⟩
    | throw raised returning =>
      obtain ⟨rfl, failed⟩ := encoded
      simp only [ends_pure, Prod.mk.injEq] at rest
      exact .inr ⟨raised, rest.1.symm, rest.2, failed⟩
    | _ => exact False.elim encoded

section

variable {inner : Bool} {saved s : Interp V W} (clear : Clear returned saved)
include clear

theorem Clear.restore (settled : Clear inner s) : Clear returned (saved.restore s) := by
  refine clear.update ?_
  simp [Interp.flags, Interp.restore, clear.no_error, settled.no_error, clear.no_exception,
    settled.no_exception, clear.texts, settled.texts]

theorem Clear.restoreFailed {raised : Raised V} (failed : Failed inner raised s) :
    Failed returned raised (saved.restore s) := by
  refine ⟨?_, ?_, ?_⟩
  · refine clear.update ?_
    obtain ⟨first, second⟩ := failed.clear.texts
    simp only [Interp.flags, Interp.restore, clear.no_error, clear.no_exception, clear.texts]
    rw [show s.break_label = [] from first, show s.continue_label = [] from second]
  · simp [Interp.restore, failed.error]
  · have carries := failed.carries
    cases raised <;> exact carries

end

theorem Clear.enter (host : Host V W) (clear : Clear returned s) : Clear false (s.enter host) := by
  simp [Clear, Interp.flags, Interp.enter, Flags.clear, clear.no_exception]

/-- The body of a loop ends as its meaning says. -/
theorem Tracks.body (tracks : Tracks eval ref) {body : ASTNode} (clear : Clear false s)
    (safe : Safe (refBody ref body s.world) completion world) :
    Reaches (eval body s) fun (value, s') =>
      s'.world = world ∧ completion.isJump = false ∧ Encodes completion value s' := by
  simp only [Safe, refBody, ends_bind] at safe
  obtain ⟨⟨ended, after⟩, evaluated, rest⟩ := safe
  cases jumps : ended.isJump with
  | true => simp [jumps] at rest
  | false =>
    simp only [jumps, Bool.false_eq_true, if_false] at rest
    obtain ⟨rfl, rfl⟩ := ends_pair rest
    exact (tracks.plain clear evaluated).mono fun _ reached => ⟨reached.1, jumps, reached.2⟩

section

variable (tracks : Tracks eval ref) {body : ASTNode} (leave : W → W) (clear : Clear returned s)
    (safe : Safe (refBody ref body s.world) completion world)
include tracks leave clear safe

/-- A call ends as its body means, and keeps the flags of the caller. -/
theorem Tracks.call :
    Reaches (interp_call_function host eval body leave s) fun (value, s') =>
      s'.world = leave world ∧ EncodesValue returned completion.ofBody value s' := by
  refine Reaches.bind (tracks.body (clear.enter host) safe) ?_
  rintro ⟨value, s₁⟩ ⟨rfl, stays, encoded⟩
  refine reaches_some.mpr ⟨rfl, ?_⟩
  cases completion with
  | normal result | «return» result =>
    obtain ⟨rfl, settled⟩ := encoded
    exact ⟨by simp [settled.has_returned], clear.restore (settled.world _)⟩
  | throw raised returning => exact ⟨rfl, clear.restoreFailed (Failed.world encoded _)⟩
  | _ => cases stays

/-- A generator that is resumed without an error in its body ends as it means. -/
theorem Tracks.resume (calm : completion.isThrow = false) :
    Reaches (gen_next eval body leave s) fun (value, s') =>
      s'.world = leave world ∧ EncodesValue returned completion.ofBody value s' := by
  have start : Clear false { s with has_returned := false } := clear.returning rfl
  refine Reaches.bind (tracks.body start safe) ?_
  rintro ⟨value, s₁⟩ ⟨rfl, stays, encoded⟩
  have settles {inner : Bool} (settled : Clear inner s₁) : Clear returned { s₁ with
      world := leave s₁.world
      has_returned := s.has_returned
      error_flag := false } := by
    simp [Clear, Interp.flags, Flags.clear, settled.no_break, settled.no_continue,
      clear.has_returned, settled.no_exception, settled.no_label, settled.texts]
  refine reaches_some.mpr ⟨rfl, ?_⟩
  cases completion with
  | normal result | «return» result =>
    obtain ⟨rfl, settled⟩ := encoded
    exact ⟨by simp [settled.has_returned], settles settled⟩
  | throw raised returning => cases calm
  | _ => cases stays

end

/-- A program of the host has the outcome of its meaning. -/
theorem runProg_tracks (tracks : Tracks eval ref) (values : TracksValues eval ref)
    (prog : Prog V W) (clear : Clear returned s) (safe : Safe (refProg ref prog) completion world) :
    Reaches (runProg host eval prog s) fun (value, s') =>
      s'.world = world ∧ EncodesValue returned completion value s' := by
  induction prog generalizing s with
  | ret value after =>
    obtain ⟨rfl, rfl⟩ := ends_pair safe
    exact reaches_some.mpr ⟨rfl, rfl, clear.world _⟩
  | raise raised after =>
    obtain ⟨rfl, rfl⟩ := ends_pair safe
    refine reaches_some.mpr ⟨?_, rfl, (clear.world _).raise host raised⟩
    cases raised <;> rfl
  | operand node before next ih =>
    refine Reaches.bind (values.operand (clear.world before) safe) ?_
    rintro ⟨value, s'⟩ (⟨settled, rest⟩ | ⟨raised, rfl, rfl, failed⟩)
    · simp only [settled.no_error, Bool.false_eq_true, if_false]
      exact ih value s'.world settled rest
    · simp only [failed.error, if_true]
      exact reaches_some.mpr ⟨rfl, rfl, failed⟩
  | call body before leave next ih =>
    simp only [Safe, refProg, ends_bind] at safe
    obtain ⟨⟨ended, after⟩, evaluated, rest⟩ := safe
    refine Reaches.bind (tracks.call leave (clear.world before) evaluated) ?_
    rintro ⟨value, s'⟩ ⟨there, encoded⟩
    rcases encoded.split with ⟨shape, settled⟩ | ⟨raised, shape, failed⟩
    · simp only [settled.no_error, Bool.false_eq_true, if_false]
      rw [shape] at rest
      exact ih value s'.world settled (there ▸ rest)
    · simp only [failed.error, if_true]
      rw [shape] at rest
      obtain ⟨rfl, rfl⟩ := ends_pair rest
      exact reaches_some.mpr ⟨there, rfl, failed⟩
  | resume body before leave next ih =>
    simp only [Safe, refProg, ends_bind, ends_note] at safe
    obtain ⟨⟨ended, after⟩, evaluated, -, stays, rest⟩ := safe
    have quiet : ended.isThrow = false := by
      by_contra left
      cases stays (eq_true_of_ne_false left)
    refine Reaches.bind (tracks.resume leave (clear.world before) evaluated quiet) ?_
    rintro ⟨value, s'⟩ ⟨there, encoded⟩
    rcases encoded.split with ⟨shape, settled⟩ | ⟨raised, shape, failed⟩
    · simp only [settled.no_error, Bool.false_eq_true, if_false]
      rw [shape] at rest
      exact ih value s'.world settled (there ▸ rest)
    · simp only [failed.error, if_true]
      rw [shape] at rest
      obtain ⟨rfl, rfl⟩ := ends_pair rest
      exact reaches_some.mpr ⟨there, rfl, failed⟩

/-- A read that the condition admits goes on with its value. -/
theorem read_tracks (tracks : Tracks eval ref) (values : TracksValues eval ref) {prog : Prog V W}
    {next : V → W → Noted (Ending V W)} (clear : Clear returned s)
    (safe : Safe (refRead ref prog next) completion world) :
    Reaches (runProg host eval prog s) fun (value, s') =>
      Clear returned s' ∧ Safe (next value s'.world) completion world := by
  simp only [Safe, refRead, ends_bind, ends_note] at safe
  obtain ⟨⟨ended, after⟩, evaluated, -, stays, rest⟩ := safe
  refine (runProg_tracks tracks values prog clear evaluated).mono ?_
  rintro ⟨value, s'⟩ ⟨rfl, encoded⟩
  rcases encoded.split with ⟨rfl, settled⟩ | ⟨raised, rfl, -⟩
  · exact ⟨settled, rest⟩
  · cases stays rfl

end Expressions

end TreeWalker
end LRJS
