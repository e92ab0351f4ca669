import LRJS.Library.Runs
import LRJS.Objects

/-!
# The cache of function bodies

`bc_get_or_compile_func` and `bc_get_or_compile_body` (`lr_interp.c`) keep the program of a body
under the address of its syntax tree: in a table that is never emptied, in four recent entries, and
in the function node.  `lr_engine.c` compiles all bodies of a unit right after parsing, and frees
the unit when the parse failed.

A program is known by the address of its body and the number of the unit.
-/

namespace LRJS

open Function List Option

structure BodyProgram where
  ast_body : Addr
  unit : Nat
deriving DecidableEq, Repr

/-- `bc_body_cache`, newest first, and the recent entries `bc_ic_body`, `bc_ic_prog`. -/
structure BodyCache where
  entries : List (Addr × BodyProgram)
  ic : Nat → Option (Addr × BodyProgram)
  ic_next : Nat

namespace BodyCache

/-- `BC_BODY_CACHE_SIZE`. -/
def capacity : Nat := 2048

def initial : BodyCache :=
  ⟨[], fun _ => none, 0⟩

section Operations

variable (cache : BodyCache) (body : Addr)

def recent : Option BodyProgram :=
  ((List.range 4).filterMap cache.ic).lookup body

def bc_body_cache_lookup : Option BodyProgram :=
  cache.entries.lookup body

def bc_body_cache_insert (prog : BodyProgram) : BodyCache :=
  if capacity ≤ cache.entries.length then
    cache
  else
    { cache with entries := (body, prog) :: cache.entries }

def remember (prog : BodyProgram) : BodyCache :=
  { cache with
    ic := Function.update cache.ic (cache.ic_next % 4) (some (body, prog))
    ic_next := cache.ic_next + 1 }

/-- The program of a body; `compiled` is what the compiler makes of it. -/
def get_or_compile (compiled : Option BodyProgram) : BodyCache × Option BodyProgram :=
  match cache.recent body with
  | some prog => (cache, some prog)
  | none =>
    match cache.bc_body_cache_lookup body with
    | some prog => (cache.remember body prog, some prog)
    | none =>
      match compiled with
      | some prog => ((cache.bc_body_cache_insert body prog).remember body prog, some prog)
      | none => (cache, none)

end Operations

def Recalls (cache : BodyCache) (body : Addr) (prog : BodyProgram) : Prop :=
  (body, prog) ∈ cache.entries ∨ ∃ i, cache.ic i = some (body, prog)

end BodyCache

/-- A function node: its body, and `bc_prog_cache`. -/
structure FuncNode where
  body : Addr
  bc_prog_cache : Option BodyProgram
deriving DecidableEq, Repr

structure ASTMemory where
  bodies : Addr → Option Nat
  funcs : Addr → Option FuncNode
  cache : BodyCache
  units : Nat

/-- What happens to units: `compiles` says whether the compiler succeeds for a body. -/
inductive UnitEvent where
  | parse (bodies : List Addr) (funcs : List (Addr × Addr)) (compiles : Addr → Bool) (error : Bool)
  | call (func : Addr) (compiles : Addr → Bool)
  | eval (body : Addr) (compiles : Addr → Bool)
  | free (bodies funcs : List Addr)

namespace ASTMemory

def initial : ASTMemory :=
  ⟨fun _ => none, fun _ => none, .initial, 0⟩

section Operations

variable (memory : ASTMemory) (compiles : Addr → Bool)

def compile (body : Addr) : Option BodyProgram :=
  if compiles body then
    (memory.bodies body).map fun unit => ⟨body, unit⟩
  else
    none

def bc_get_or_compile_body (body : Addr) : ASTMemory × Option BodyProgram :=
  let (cache, prog) := memory.cache.get_or_compile body (memory.compile compiles body)
  ({ memory with cache }, prog)

def bc_get_or_compile_func (func : Addr) : ASTMemory × Option BodyProgram :=
  match memory.funcs func with
  | none => (memory, none)
  | some node =>
    match node.bc_prog_cache with
    | some prog => (memory, some prog)
    | none =>
      let (memory, prog) := memory.bc_get_or_compile_body compiles node.body
      let node := { node with bc_prog_cache := prog }
      ({ memory with funcs := Function.update memory.funcs func (some node) }, prog)

def alloc (bodies : List Addr) (funcs : List (Addr × Addr)) : ASTMemory :=
  { memory with
    bodies := fun a => if a ∈ bodies then some memory.units else memory.bodies a
    funcs := fun a => match funcs.lookup a with
      | some body => some ⟨body, none⟩
      | none => memory.funcs a
    units := memory.units + 1 }

/-- `interp_precompile_all_bodies`. -/
def precompile (funcs : List Addr) : ASTMemory :=
  funcs.foldl (fun memory func => (memory.bc_get_or_compile_func compiles func).1) memory

/-- `lr_eval_unit_free`. -/
def free (bodies funcs : List Addr) : ASTMemory :=
  { memory with
    bodies := fun a => if a ∈ bodies then none else memory.bodies a
    funcs := fun a => if a ∈ funcs then none else memory.funcs a }

/-- `lr_engine_parse_source`: the bodies are compiled before the error is noticed. -/
def parse_source (bodies : List Addr) (funcs : List (Addr × Addr)) (error : Bool) : ASTMemory :=
  let compiled := (memory.alloc bodies funcs).precompile compiles (funcs.map Prod.fst)
  if error then compiled.free bodies (funcs.map Prod.fst) else compiled

def next (memory : ASTMemory) : UnitEvent → Option ASTMemory
  | .parse bodies funcs compiles error => some (memory.parse_source compiles bodies funcs error)
  | .call func compiles => some (memory.bc_get_or_compile_func compiles func).1
  | .eval body compiles => some (memory.bc_get_or_compile_body compiles body).1
  | .free bodies funcs => some (memory.free bodies funcs)

end Operations

structure Transparent (memory : ASTMemory) : Prop where
  func : ∀ func node unit compiles prog, memory.funcs func = some node →
    memory.bodies node.body = some unit →
      (memory.bc_get_or_compile_func compiles func).2 = some prog → prog = ⟨node.body, unit⟩
  body : ∀ body unit compiles prog, memory.bodies body = some unit →
    (memory.bc_get_or_compile_body compiles body).2 = some prog → prog = ⟨body, unit⟩

def Proper (memory : ASTMemory) : UnitEvent → Prop
  | .parse bodies funcs _ _ =>
    (∀ body ∈ bodies, memory.bodies body = none) ∧
      ∀ func body, (func, body) ∈ funcs → body ∈ bodies ∨ (memory.bodies body).isSome
  | .call _ _ => True
  | .eval _ _ => True
  | .free bodies funcs =>
    ∀ func node, memory.funcs func = some node → node.body ∈ bodies → func ∈ funcs

def Fits (memory : ASTMemory) : UnitEvent → Prop
  | .parse bodies _ _ _ => ∀ body ∈ bodies, ∀ prog, ¬ memory.cache.Recalls body prog
  | .call _ _ => True
  | .eval _ _ => True
  | .free _ _ => True

structure Sound (memory : ASTMemory) : Prop where
  live : ∀ func node, memory.funcs func = some node → (memory.bodies node.body).isSome
  recalls : ∀ body prog unit, memory.cache.Recalls body prog → memory.bodies body = some unit →
    prog = ⟨body, unit⟩
  cached : ∀ func node prog unit, memory.funcs func = some node →
    node.bc_prog_cache = some prog → memory.bodies node.body = some unit →
      prog = ⟨node.body, unit⟩

end ASTMemory

namespace BodyCache

theorem mem_of_lookup {entries : List (Addr × BodyProgram)} {body : Addr} {prog : BodyProgram}
    (found : entries.lookup body = some prog) : (body, prog) ∈ entries := by
  obtain ⟨before, after, rfl, -⟩ := lookup_eq_some_iff.mp found
  exact mem_append_right before mem_cons_self

variable {cache : BodyCache} {body other : Addr} {prog found : BodyProgram}

theorem recalls_of_recent (found : cache.recent body = some prog) : cache.Recalls body prog := by
  obtain ⟨i, -, entry⟩ := mem_filterMap.mp (mem_of_lookup found)
  exact .inr ⟨i, entry⟩

theorem recalls_of_remember (recalls : (cache.remember body prog).Recalls other found) :
    cache.Recalls other found ∨ other = body ∧ found = prog := by
  rcases recalls with entry | ⟨i, entry⟩
  · exact .inl (.inl entry)
  · change Function.update cache.ic _ _ i = _ at entry
    by_cases newest : i = cache.ic_next % 4
    · rw [newest, update_self] at entry
      cases entry
      exact .inr ⟨rfl, rfl⟩
    · rw [update_of_ne newest] at entry
      exact .inl (.inr ⟨i, entry⟩)

theorem recalls_of_insert (recalls : (cache.bc_body_cache_insert body prog).Recalls other found) :
    cache.Recalls other found ∨ other = body ∧ found = prog := by
  unfold bc_body_cache_insert at recalls
  split at recalls
  · exact .inl recalls
  · rcases recalls with entry | recent
    · rcases mem_cons.mp entry with new | old
      · cases new
        exact .inr ⟨rfl, rfl⟩
      · exact .inl (.inl old)
    · exact .inl (.inr recent)

variable {compiled : Option BodyProgram}

theorem get_or_compile_answer (answer : (cache.get_or_compile body compiled).2 = some prog) :
    cache.Recalls body prog ∨ compiled = some prog := by
  unfold get_or_compile at answer
  cases recent : cache.recent body with
  | some entry =>
    rw [recent] at answer
    cases answer
    exact .inl (recalls_of_recent recent)
  | none =>
    rw [recent] at answer
    cases looked : cache.bc_body_cache_lookup body with
    | some entry =>
      rw [looked] at answer
      cases answer
      exact .inl (.inl (mem_of_lookup looked))
    | none =>
      rw [looked] at answer
      cases compiled with
      | some entry => exact .inr answer
      | none => cases answer

/-- What the cache recalls behind a look-up was recalled before or is the body's own. -/
theorem get_or_compile_recalls
    (recalls : (cache.get_or_compile body compiled).1.Recalls other found) :
    cache.Recalls other found ∨
      other = body ∧ (cache.get_or_compile body compiled).2 = some found := by
  unfold get_or_compile at recalls ⊢
  cases recent : cache.recent body with
  | some entry =>
    rw [recent] at recalls
    exact .inl recalls
  | none =>
    rw [recent] at recalls
    cases looked : cache.bc_body_cache_lookup body with
    | some entry =>
      rw [looked] at recalls
      rcases recalls_of_remember recalls with old | ⟨same, rfl⟩
      · exact .inl old
      · exact .inr ⟨same, rfl⟩
    | none =>
      rw [looked] at recalls
      cases compiled with
      | none => exact .inl recalls
      | some entry =>
        rcases recalls_of_remember recalls with inserted | ⟨same, rfl⟩
        · rcases recalls_of_insert inserted with old | ⟨same, rfl⟩
          · exact .inl old
          · exact .inr ⟨same, rfl⟩
        · exact .inr ⟨same, rfl⟩

end BodyCache

namespace ASTMemory

section Steps

variable {memory : ASTMemory} {compiles : Addr → Bool}

variable {prog : BodyProgram}

theorem Sound.compile_own (body : Addr) {unit : Nat}
    (live : memory.bodies body = some unit)
    (compiled : memory.compile compiles body = some prog) :
    prog = ⟨body, unit⟩ := by
  unfold compile at compiled
  split at compiled
  · rw [live] at compiled
    cases compiled
    rfl
  · cases compiled

section

variable (sound : memory.Sound)
include sound

theorem Sound.body_own {body : Addr} {unit : Nat} (live : memory.bodies body = some unit)
    (answer : (memory.bc_get_or_compile_body compiles body).2 = some prog) :
    prog = ⟨body, unit⟩ := by
  rcases BodyCache.get_or_compile_answer answer with recalled | compiled
  · exact sound.recalls body prog unit recalled live
  · exact Sound.compile_own body live compiled

theorem Sound.func_own {func : Addr} {node : FuncNode} {unit : Nat}
    (entry : memory.funcs func = some node)
    (live : memory.bodies node.body = some unit)
    (answer : (memory.bc_get_or_compile_func compiles func).2 = some prog) :
    prog = ⟨node.body, unit⟩ := by
  unfold bc_get_or_compile_func at answer
  rw [entry] at answer
  dsimp only at answer
  cases cached : node.bc_prog_cache with
  | some own =>
    rw [cached] at answer
    cases answer
    exact sound.cached func node prog unit entry cached live
  | none =>
    rw [cached] at answer
    exact sound.body_own live answer

theorem Sound.transparent : memory.Transparent where
  func := fun _ _ _ _ _ entry live answer => sound.func_own entry live answer
  body := fun _ _ _ _ live answer => sound.body_own live answer

theorem Sound.get_body (body : Addr) : (memory.bc_get_or_compile_body compiles body).1.Sound where
  live := sound.live
  cached := sound.cached
  recalls := by
    intro other prog unit recalls live
    rcases BodyCache.get_or_compile_recalls recalls with old | ⟨rfl, answer⟩
    · exact sound.recalls other prog unit old live
    · exact sound.body_own live answer

/-- Asking for the program of a function keeps the caches sound. -/
theorem Sound.get_func (func : Addr) : (memory.bc_get_or_compile_func compiles func).1.Sound := by
  unfold bc_get_or_compile_func
  cases entry : memory.funcs func with
  | none =>
    exact sound
  | some node =>
    dsimp only
    cases cached : node.bc_prog_cache with
    | some own =>
      exact sound
    | none =>
      have kept : (memory.bc_get_or_compile_body compiles node.body).1.Sound :=
        sound.get_body node.body
      refine ⟨fun other found holds => ?_, kept.recalls,
        fun other found prog unit holds own live => ?_⟩
      · dsimp only at holds
        by_cases same : other = func
        · rw [same, update_self] at holds
          cases holds
          exact sound.live func node entry
        · rw [update_of_ne same] at holds
          exact sound.live other found holds
      · dsimp only at holds
        by_cases same : other = func
        · rw [same, update_self] at holds
          cases holds
          exact sound.body_own live own
        · rw [update_of_ne same] at holds
          exact sound.cached other found prog unit holds own live

end

theorem get_func_trees (func : Addr) :
    (memory.bc_get_or_compile_func compiles func).1.bodies = memory.bodies ∧
      ∀ other, ((memory.bc_get_or_compile_func compiles func).1.funcs other).map FuncNode.body =
        (memory.funcs other).map FuncNode.body := by
  unfold bc_get_or_compile_func
  cases entry : memory.funcs func with
  | none =>
    exact ⟨rfl, fun _ => rfl⟩
  | some node =>
    dsimp only
    cases cached : node.bc_prog_cache with
    | some own =>
      exact ⟨rfl, fun _ => rfl⟩
    | none =>
      refine ⟨rfl, fun other => ?_⟩
      dsimp only
      by_cases same : other = func
      · rw [same, update_self, entry]
        rfl
      · rw [update_of_ne same]
        rfl

theorem Sound.precompile (sound : memory.Sound) (funcs : List Addr) :
    (memory.precompile compiles funcs).Sound ∧
      ∀ other, ((memory.precompile compiles funcs).funcs other).map FuncNode.body =
        (memory.funcs other).map FuncNode.body := by
  induction funcs generalizing memory with
  | nil =>
    exact ⟨sound, fun _ => rfl⟩
  | cons func rest ih =>
    have called : (memory.bc_get_or_compile_func compiles func).1.Sound := sound.get_func func
    obtain ⟨kept, same⟩ := ih called
    exact ⟨kept, fun other => (same other).trans ((get_func_trees func).2 other)⟩

/-- New bodies and functions at addresses that no entry remembers keep the caches sound. -/
theorem Sound.alloc (sound : memory.Sound) {bodies : List Addr} {funcs : List (Addr × Addr)}
    (proper : ∀ func body, (func, body) ∈ funcs → body ∈ bodies ∨ (memory.bodies body).isSome)
    (fits : ∀ body ∈ bodies, ∀ prog, ¬ memory.cache.Recalls body prog)
    (fresh : ∀ body ∈ bodies, memory.bodies body = none) : (memory.alloc bodies funcs).Sound := by
  have old (body : Addr) (member : body ∉ bodies) :
      (memory.alloc bodies funcs).bodies body = memory.bodies body :=
    if_neg member
  have node (func : Addr) (node : FuncNode)
      (entry : (memory.alloc bodies funcs).funcs func = some node) :
      ((func, node.body) ∈ funcs ∧ node.bc_prog_cache = none) ∨
        memory.funcs func = some node := by
    change (match funcs.lookup func with
      | some body => some ⟨body, none⟩
      | none => memory.funcs func) = some node at entry
    cases new : funcs.lookup func with
    | none =>
      rw [new] at entry
      exact .inr entry
    | some body =>
      rw [new] at entry
      cases entry
      obtain ⟨before, after, split, -⟩ := lookup_eq_some_iff.mp new
      rw [split]
      exact .inl ⟨mem_append_right before mem_cons_self, rfl⟩
  refine ⟨fun func found entry => ?_, fun body prog unit recalls live => ?_,
    fun func found prog unit entry cached live => ?_⟩
  · by_cases new : found.body ∈ bodies
    · exact isSome_iff_exists.mpr ⟨_, if_pos new⟩
    · rw [old found.body new]
      rcases node func found entry with ⟨member, -⟩ | before
      · exact (proper func found.body member).resolve_left new
      · exact sound.live func found before
  · by_cases new : body ∈ bodies
    · exact absurd recalls (fits body new prog)
    · rw [old body new] at live
      exact sound.recalls body prog unit recalls live
  · rcases node func found entry with ⟨-, empty⟩ | before
    · rw [empty] at cached
      cases cached
    · have notNew : found.body ∉ bodies := by
        intro new
        have live := sound.live func found before
        rw [fresh found.body new] at live
        cases live
      rw [old found.body notNew] at live
      exact sound.cached func found prog unit before cached live

/-- Bodies are freed soundly with all the functions that have them. -/
theorem Sound.free (sound : memory.Sound) {bodies funcs : List Addr}
    (whole : ∀ func node, memory.funcs func = some node → node.body ∈ bodies → func ∈ funcs) :
    (memory.free bodies funcs).Sound := by
  have left (func : Addr) (node : FuncNode)
      (entry : (memory.free bodies funcs).funcs func = some node) :
      memory.funcs func = some node ∧ node.body ∉ bodies := by
    change (if func ∈ funcs then none else memory.funcs func) = some node at entry
    split at entry
    · cases entry
    · next kept =>
        exact ⟨entry, fun freed => kept (whole func node entry freed)⟩
  have before (body : Addr) (unit : Nat)
      (live : (memory.free bodies funcs).bodies body = some unit) :
      memory.bodies body = some unit := by
    change (if body ∈ bodies then none else memory.bodies body) = some unit at live
    split at live
    · cases live
    · exact live
  refine ⟨fun func node entry => ?_, fun body prog unit recalls live => ?_,
    fun func node prog unit entry cached live => ?_⟩
  · obtain ⟨old, kept⟩ := left func node entry
    rw [show (memory.free bodies funcs).bodies node.body = memory.bodies node.body from if_neg kept]
    exact sound.live func node old
  · exact sound.recalls body prog unit recalls (before body unit live)
  · exact sound.cached func node prog unit (left func node entry).1 cached
      (before node.body unit live)

/-- Parsing, also one that ends in a syntax error, keeps the caches sound. -/
theorem Sound.parse (sound : memory.Sound) {bodies : List Addr} {funcs : List (Addr × Addr)}
    (proper : ∀ func body, (func, body) ∈ funcs → body ∈ bodies ∨ (memory.bodies body).isSome)
    (fits : ∀ body ∈ bodies, ∀ prog, ¬ memory.cache.Recalls body prog)
    (fresh : ∀ body ∈ bodies, memory.bodies body = none) (error : Bool) :
    (memory.parse_source compiles bodies funcs error).Sound := by
  have allocated : (memory.alloc bodies funcs).Sound := sound.alloc proper fits fresh
  obtain ⟨compiled, same⟩ : _ ∧ _ := allocated.precompile (funcs.map Prod.fst)
  cases error with
  | false =>
    exact compiled
  | true =>
    -- the functions whose bodies are freed are those of the unit
    refine compiled.free fun func node entry freed => ?_
    have body := same func
    rw [entry] at body
    unfold ASTMemory.alloc at body
    dsimp only at body
    cases new : funcs.lookup func with
    | some own =>
      obtain ⟨before, after, split, -⟩ := lookup_eq_some_iff.mp new
      rw [split, map_append]
      exact mem_append_right _ mem_cons_self
    | none =>
      rw [new] at body
      obtain ⟨old, entry', sameBody⟩ := map_eq_some_iff.mp body.symm
      have live := sound.live func old entry'
      rw [sameBody, fresh node.body freed] at live
      cases live

end Steps

theorem initial_sound : initial.Sound where
  live := nofun
  recalls := nofun
  cached := nofun

theorem next_sound (memory : ASTMemory) (event : UnitEvent) (sound : memory.Sound)
    (valid : memory.Proper event ∧ memory.Fits event) :
    ∃ later, memory.next event = some later ∧ later.Sound := by
  obtain ⟨proper, fits⟩ := valid
  cases event with
  | parse bodies funcs compiles error =>
    exact ⟨_, rfl, sound.parse proper.2 fits proper.1 error⟩
  | call func compiles => exact ⟨_, rfl, sound.get_func func⟩
  | eval body compiles => exact ⟨_, rfl, sound.get_body body⟩
  | free bodies funcs => exact ⟨_, rfl, sound.free proper⟩

/-- In every run that fits, a program that is returned was compiled from the body in
memory. -/
theorem body_cache_transparent {events : List UnitEvent}
    (valid : Runs.Throughout next (fun memory event => memory.Proper event ∧ memory.Fits event)
      initial events) :
    ∃ memory, Runs.after next initial events = some memory ∧ memory.Transparent := by
  obtain ⟨memory, arrives, sound⟩ :=
    Runs.Throughout.arrives_with next_sound initial_sound valid
  exact ⟨memory, arrives, sound.transparent⟩

/-- A unit with a function and a call of it. -/
theorem body_cache_transparent_call : ∃ memory, Runs.after next initial
    [.parse [1] [(10, 1)] (fun _ => true) false, .call 10 fun _ => true] = some memory ∧
      memory.Transparent := by
  refine body_cache_transparent ⟨⟨⟨fun _ _ => rfl, ?_⟩, ?_⟩, ?_⟩
  · rintro func body member
    cases mem_singleton.mp member
    exact .inl (mem_singleton_self 1)
  · rintro body - prog (entry | ⟨i, entry⟩)
    · cases entry
    · cases entry
  · exact fun _ _ => ⟨⟨trivial, trivial⟩, fun _ _ => trivial⟩

/-- A unit is freed after a syntax error, and another one has a body at the same address. -/
theorem freed_body_recalled : ∃ memory, Runs.after next initial
    [.parse [1] [(10, 1)] (fun _ => true) true, .parse [1] [(20, 1)] (fun _ => true) false] =
      some memory ∧ memory.bodies 1 = some 1 ∧
      (memory.bc_get_or_compile_func (fun _ => true) 20).2 = some ⟨1, 0⟩ ∧
        ¬ memory.Transparent := by
  refine ⟨_, rfl, rfl, rfl, fun transparent => ?_⟩
  have own := transparent.body 1 1 (fun _ => true) ⟨1, 0⟩ rfl rfl
  cases own

end ASTMemory

end LRJS
