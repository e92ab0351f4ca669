import LRJS.Library.Runs

/-!
# The cache of compiled sources

`lr_engine_exec_unit` (`lr_engine.c`) looks for a program under the hash of the source text before
it compiles the unit.  A program is known by the text and the mode that it was compiled from.
`parse_program` and `bc_compile` see the whole text, `strlen` and the hash see it up to its first
NUL.
-/

namespace LRJS

open List Option Function

def lr_iome586_hash64 (data : List UInt8) : UInt64 :=
  data.foldl (fun h c => (h ^^^ c.toUInt64) * 0x100000001b3) 0xcbf29ce484222325

/-- The bytes that `strlen` counts. -/
def cString (src : List UInt8) : List UInt8 :=
  src.takeWhile (· ≠ 0)

structure CompiledProgram where
  src : List UInt8
  is_module : Bool
deriving DecidableEq, Repr

/-- An entry of `compiled_cache`. -/
structure LRCompiledCacheEntry where
  hash : UInt64
  prog : CompiledProgram
deriving DecidableEq, Repr

/-- A call of `lr_engine_exec_unit` for a unit without program: its text, if any, the mode, and
whether `bc_new_program`, `bc_compile` and the allocation of an entry succeed. -/
structure Evaluation where
  src : Option (List UInt8)
  is_module : Bool
  allocated : Bool
  compiled : Bool
  cached : Bool
deriving DecidableEq, Repr

structure EvalSession where
  compiled_cache : Nat → List LRCompiledCacheEntry
  earlier : List Evaluation

namespace EvalSession

def initial : EvalSession :=
  ⟨fun _ => [], []⟩

/-- `src_hash & 63`. -/
def bucket (hash : UInt64) : Nat :=
  hash.toNat % 64

def find (session : EvalSession) (hash : UInt64) : Option CompiledProgram :=
  ((session.compiled_cache (bucket hash)).find? fun ce => ce.hash = hash).map
    LRCompiledCacheEntry.prog

def add (session : EvalSession) (prog : CompiledProgram) : Nat → List LRCompiledCacheEntry :=
  let hash := lr_iome586_hash64 (cString prog.src)
  Function.update session.compiled_cache (bucket hash)
    (⟨hash, prog⟩ :: session.compiled_cache (bucket hash))

/-- The program that is executed, if there is one, and the cache afterwards.  `strlen`
is not defined for a unit without text. -/
def exec_unit (session : EvalSession) (eval : Evaluation) :
    Option (Option CompiledProgram × (Nat → List LRCompiledCacheEntry)) := do
  let src ← eval.src
  match session.find (lr_iome586_hash64 (cString src)) with
  | some prog => some (some prog, session.compiled_cache)
  | none =>
    if eval.allocated && eval.compiled then
      some (some ⟨src, eval.is_module⟩, if eval.cached then
        session.add ⟨src, eval.is_module⟩
      else
        session.compiled_cache)
    else
      some (none, session.compiled_cache)

def next (session : EvalSession) (eval : Evaluation) : Option EvalSession :=
  (session.exec_unit eval).map fun (_, compiled_cache) =>
    ⟨compiled_cache, session.earlier ++ [eval]⟩

/-- The evaluation executes no program but one that was compiled from its own text in
its own mode. -/
def Own (session : EvalSession) (eval : Evaluation) : Prop :=
  ∃ prog cache, session.exec_unit eval = some (prog, cache) ∧
    ∀ found, prog = some found → eval.src = some found.src ∧ eval.is_module = found.is_module

end EvalSession

def Evaluation.keeps (eval : Evaluation) : Bool :=
  eval.allocated && eval.compiled && eval.cached

namespace EvalSession

/-- The unit has a text, and no earlier evaluation added another text, or the text in
another mode, under its hash. -/
def Fits (session : EvalSession) (eval : Evaluation) : Prop :=
  ∃ src, eval.src = some src ∧ ∀ other ∈ session.earlier, ∀ src', other.src = some src' →
    other.keeps = true → lr_iome586_hash64 (cString src') = lr_iome586_hash64 (cString src) →
      src' = src ∧ other.is_module = eval.is_module

structure Remembers (session : EvalSession) : Prop where
  entry : ∀ b, ∀ ce ∈ session.compiled_cache b,
    ce.hash = lr_iome586_hash64 (cString ce.prog.src) ∧
      ∃ other ∈ session.earlier, other.src = some ce.prog.src ∧
        other.is_module = ce.prog.is_module ∧ other.keeps = true
  kept : ∀ other ∈ session.earlier, ∀ src, other.src = some src → other.keeps = true →
    session.find (lr_iome586_hash64 (cString src)) = some ⟨src, other.is_module⟩

section Steps

variable {session : EvalSession} {eval : Evaluation} {src : List UInt8}

variable {prog : CompiledProgram}

theorem exec_unit_found (text : eval.src = some src)
    (found : session.find (lr_iome586_hash64 (cString src)) = some prog) :
    session.exec_unit eval = some (some prog, session.compiled_cache) := by
  rw [exec_unit, text, bind_eq_bind, bind_some, found]

theorem exec_unit_absent (text : eval.src = some src)
    (absent : session.find (lr_iome586_hash64 (cString src)) = none) :
    session.exec_unit eval =
      some (if eval.allocated && eval.compiled then some ⟨src, eval.is_module⟩ else none,
        if eval.keeps then session.add ⟨src, eval.is_module⟩ else session.compiled_cache) := by
  rw [exec_unit, text, bind_eq_bind, bind_some, absent, Evaluation.keeps]
  by_cases compiled : (eval.allocated && eval.compiled) = true
  · simp [compiled]
  · simp [compiled]

/-- A program that is found by a hash was kept by an earlier evaluation. -/
theorem Remembers.of_find (remembers : session.Remembers)
    {hash : UInt64} (found : session.find hash = some prog) :
    lr_iome586_hash64 (cString prog.src) = hash ∧
      ∃ other ∈ session.earlier, other.src = some prog.src ∧
        other.is_module = prog.is_module ∧ other.keeps = true := by
  obtain ⟨ce, first, rfl⟩ := map_eq_some_iff.mp found
  have same : ce.hash = hash := by
    simpa using find?_some first
  obtain ⟨hashed, added⟩ := remembers.entry _ ce (mem_of_find?_eq_some first)
  exact ⟨hashed.symm.trans same, added⟩

/-- Where the evaluation fits, the program found is the one of its source. -/
theorem Remembers.found_own (remembers : session.Remembers) (text : eval.src = some src)
    (fits : session.Fits eval)
    (found : session.find (lr_iome586_hash64 (cString src)) = some prog) :
    prog = ⟨src, eval.is_module⟩ := by
  obtain ⟨own, ownText, apart⟩ := fits
  rw [text] at ownText
  cases ownText
  obtain ⟨same, other, member, text', mode, keeps⟩ := remembers.of_find found
  obtain ⟨sameText, sameMode⟩ := apart other member prog.src text' keeps same
  obtain ⟨progSrc, progMode⟩ := prog
  dsimp only at sameText mode
  rw [sameText, ← mode, sameMode]

/-- Every source gets its own program exactly if the evaluation fits. -/
theorem own_iff_fits (remembers : session.Remembers) : session.Own eval ↔ session.Fits eval := by
  constructor
  · rintro ⟨prog, cache, run, own⟩
    cases text : eval.src with
    | none =>
      rw [exec_unit, text] at run
      cases run
    | some src =>
      refine ⟨src, text, fun other member src' text' keeps same => ?_⟩
      have found := remembers.kept other member src' text' keeps
      rw [same] at found
      rw [exec_unit_found text found] at run
      cases run
      obtain ⟨sameText, sameMode⟩ := own _ rfl
      rw [text] at sameText
      exact ⟨(some.inj sameText).symm, sameMode.symm⟩
  · intro fits
    obtain ⟨src, text, -⟩ := id fits
    cases found : session.find (lr_iome586_hash64 (cString src)) with
    | some prog =>
      refine ⟨some prog, _, exec_unit_found text found, ?_⟩
      rintro _ ⟨⟩
      rw [remembers.found_own text fits found]
      exact ⟨text, rfl⟩
    | none =>
      refine ⟨_, _, exec_unit_absent text found, fun prog executed => ?_⟩
      split at executed
      · cases executed
        exact ⟨text, rfl⟩
      · cases executed

theorem find_add (prog : CompiledProgram) (hash : UInt64) (earlier : List Evaluation) :
    find ⟨session.add prog, earlier⟩ hash =
      if lr_iome586_hash64 (cString prog.src) = hash then some prog else session.find hash := by
  unfold find add
  dsimp only
  generalize lr_iome586_hash64 (cString prog.src) = own
  by_cases same : own = hash
  · rw [same, update_self, find?_cons, if_pos rfl]
    simp
  · rw [if_neg same]
    by_cases chain : bucket hash = bucket own
    · rw [chain, update_self, find?_cons]
      simp [same]
    · rw [update_of_ne chain]

theorem next_found (text : eval.src = some src)
    (found : session.find (lr_iome586_hash64 (cString src)) = some prog) :
    session.next eval = some ⟨session.compiled_cache, session.earlier ++ [eval]⟩ := by
  rw [next, exec_unit_found text found]
  rfl

theorem next_absent (text : eval.src = some src)
    (absent : session.find (lr_iome586_hash64 (cString src)) = none) :
    session.next eval = some ⟨if eval.keeps then session.add ⟨src, eval.is_module⟩
      else session.compiled_cache, session.earlier ++ [eval]⟩ := by
  rw [next, exec_unit_absent text absent]
  rfl

/-- An evaluation that fits keeps the cache a memory of the earlier ones. -/
theorem Remembers.next (remembers : session.Remembers) (fits : session.Fits eval)
    {later : EvalSession} (step : session.next eval = some later) : later.Remembers := by
  obtain ⟨src, text, -⟩ := id fits
  have before (b : Nat) (ce : LRCompiledCacheEntry) (member : ce ∈ session.compiled_cache b) :
      ce.hash = lr_iome586_hash64 (cString ce.prog.src) ∧
        ∃ other ∈ session.earlier ++ [eval], other.src = some ce.prog.src ∧
          other.is_module = ce.prog.is_module ∧ other.keeps = true := by
    obtain ⟨hashed, other, listed, added⟩ := remembers.entry b ce member
    exact ⟨hashed, other, mem_append_left _ listed, added⟩
  cases found : session.find (lr_iome586_hash64 (cString src)) with
  | some prog =>
    rw [next_found text found] at step
    cases step
    refine ⟨before, fun other member src' text' keeps => ?_⟩
    rcases mem_append.mp member with old | new
    · exact remembers.kept other old src' text' keeps
    · rw [mem_singleton.mp new] at text' ⊢
      rw [text] at text'
      cases text'
      rw [← remembers.found_own text fits found]
      exact found
  | none =>
    rw [next_absent text found] at step
    cases step
    cases keeps : eval.keeps with
    | false =>
      refine ⟨before, fun other member src' text' kept => ?_⟩
      rcases mem_append.mp member with old | new
      · exact remembers.kept other old src' text' kept
      · rw [mem_singleton.mp new, keeps] at kept
        cases kept
    | true =>
      constructor
      · intro b ce member
        by_cases chain : b = bucket (lr_iome586_hash64 (cString src))
        · subst chain
          change ce ∈ update session.compiled_cache _ _ _ at member
          rw [update_self, mem_cons] at member
          rcases member with rfl | old
          · exact ⟨rfl, eval, mem_append_right _ (mem_singleton_self eval), text,
              rfl, keeps⟩
          · exact before _ ce old
        · change ce ∈ update session.compiled_cache _ _ _ at member
          rw [update_of_ne chain] at member
          exact before b ce member
      · intro other member src' text' kept
        rw [if_pos rfl, find_add]
        rcases mem_append.mp member with old | new
        · have found' := remembers.kept other old src' text' kept
          rw [if_neg]
          · exact found'
          · intro same
            rw [← same, found] at found'
            cases found'
        · rw [mem_singleton.mp new] at text' ⊢
          rw [text] at text'
          cases text'
          rw [if_pos rfl]

end Steps

theorem initial_remembers : initial.Remembers :=
  ⟨nofun, nofun⟩

/-- In any sequence of evaluations each executes its own program exactly when none lacks a text or
clashes with an earlier one. -/
theorem compiled_cache_transparent_iff (evaluations : List Evaluation) :
    Runs.Throughout next Own initial evaluations ↔
      Runs.Throughout next Fits initial evaluations :=
  Runs.Throughout.iff_of_invariant Remembers
    (fun _ _ _ remembers fits step => remembers.next fits step)
    (fun _ _ remembers => own_iff_fits remembers) initial_remembers

/-- Two texts that differ behind a NUL in a comment. -/
theorem nul_in_comment_clashes : ¬ Runs.Throughout next Own initial
    [⟨some [47, 47, 0, 10, 49], false, true, true, true⟩,
      ⟨some [47, 47, 0, 10, 50], false, true, true, true⟩] := by
  rintro ⟨first, later⟩
  have remembers := initial_remembers.next ((own_iff_fits initial_remembers).mp first) rfl
  obtain ⟨second, -⟩ := later _ rfl
  obtain ⟨src, text, apart⟩ := (own_iff_fits remembers).mp second
  have sameText : cString [47, 47, 0, 10, 49] = cString src := by
    cases text
    decide
  obtain ⟨same, -⟩ := apart _ (mem_singleton_self _) _ rfl rfl
    (congrArg lr_iome586_hash64 sameText)
  rw [← same] at text
  exact absurd text (by decide)

end EvalSession

end LRJS
