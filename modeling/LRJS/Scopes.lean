import Mathlib.Data.List.Basic

/-!
# Scopes

`find_function_scope`, `shadow_save`, `shadow_restore_for_scope`, `scope_declare_name`,
`scope_set_name` and `interp_pop_scope` (`lr_interp.c`).

Scopes have addresses, and the current scope is given with its ancestors.  `is_lexical` is read
in global scopes that mirror their bindings only, and `false` elsewhere.
-/

namespace LRJS
namespace Scopes

structure Binding (V : Type) where
  name : String
  value : V
  is_const : Bool
  is_lexical : Bool
deriving DecidableEq

/-- `InterpScope`, without the parent. -/
structure Scope (V : Type) where
  is_function_scope : Bool
  is_global_scope : Bool
  mirror_globals : Bool
  bindings : List (Binding V)
deriving DecidableEq

/-- `ShadowRestore`. -/
structure Shadow (V : Type) where
  scope : Nat
  name : String
  saved : V
deriving DecidableEq

/-- The interpreter, as the declaring and assigning of names sees it.  `chain` is the current
scope, its parent and so on. -/
structure State (V W : Type) where
  chain : List Nat
  global_scope : Nat
  scopes : Nat → Scope V
  shadow_restore_head : List (Shadow V)
  error_flag : Bool
  world : W

/-- What is done with values: `lr_dup_value`, `lr_free_value` and `mirror_global_binding`. -/
structure Values (V W : Type) where
  dup : V → W → W
  free : V → W → W
  mirror : String → V → State V W → State V W

variable {V W : Type}

def Scope.mirrors (scope : Scope V) : Bool :=
  scope.is_global_scope && scope.mirror_globals

def Scope.find (scope : Scope V) (name : String) : Option Nat :=
  scope.bindings.findIdx? fun binding => binding.name == name

namespace State

def find_function_scope (s : State V W) : Nat :=
  (s.chain.find? fun address =>
    (s.scopes address).is_function_scope || (s.scopes address).is_global_scope).getD s.global_scope

def lookup (s : State V W) (name : String) : Option (Nat × Nat) :=
  s.chain.findSome? fun address => ((s.scopes address).find name).map fun i => (address, i)

def putBindings (s : State V W) (address : Nat) (bindings : List (Binding V)) : State V W :=
  let scope := { s.scopes address with bindings := bindings }
  { s with scopes := Function.update s.scopes address scope }

/-- Whether `scope_declare_name` saves the value that it overwrites in a scope. -/
def saves (s : State V W) (kind address : Nat) : Bool :=
  match s.chain with
  | [] => false
  | current :: _ =>
    decide (kind ≠ 0) && decide (current ≠ address) &&
      !(s.scopes current).is_function_scope && !(s.scopes current).is_global_scope

/-- `shadow_save`, for the current scope. -/
def shadow_save (s : State V W) (name : String) (old : V) : State V W :=
  match s.chain with
  | [] => s
  | current :: _ =>
    { s with shadow_restore_head := ⟨current, name, old⟩ :: s.shadow_restore_head }

end State

theorem find_of_lookup {s : State V W} {name : String} {address i : Nat}
    (found : s.lookup name = some (address, i)) : (s.scopes address).find name = some i := by
  obtain ⟨scope, member, at_scope⟩ := List.exists_of_findSome?_eq_some found
  cases position : (s.scopes scope).find name with
  | none =>
    rw [position] at at_scope
    cases at_scope
  | some j =>
    rw [position] at at_scope
    cases at_scope
    exact position

section Operations

variable (values : Values V W)

def overwrite (address i : Nat) (value : V) (s : State V W) : State V W :=
  match (s.scopes address).bindings[i]? with
  | none => s
  | some binding =>
    { s.putBindings address
        ((s.scopes address).bindings.set i { binding with value := value }) with
      world := values.dup value (values.free binding.value s.world) }

def isLexicalAt (address i : Nat) (s : State V W) : Bool :=
  ((s.scopes address).bindings[i]?.map Binding.is_lexical).getD false

def isConstAt (address i : Nat) (s : State V W) : Bool :=
  ((s.scopes address).bindings[i]?.map Binding.is_const).getD false

/-- `scope_declare_name`; the kind is 0 for `var`, 1 for `let` and 2 for `const`. -/
def scope_declare_name (name : String) (value : V) (kind : Nat) (s : State V W) : State V W :=
  let address := s.find_function_scope
  let scope := s.scopes address
  let mirror := decide (kind = 0) && scope.mirrors
  match scope.find name with
  | some i =>
    let s₁ :=
      match s.saves kind address, scope.bindings[i]? with
      | true, some binding =>
        { s.shadow_save name binding.value with world := values.dup binding.value s.world }
      | _, _ => s
    let s₂ := overwrite values address i value s₁
    if mirror && !isLexicalAt address i s₂ then values.mirror name value s₂ else s₂
  | none =>
    let binding : Binding V :=
      { name := name, value := value, is_const := false,
        is_lexical := decide (kind ≠ 0) && scope.mirrors }
    let s₁ := { s.putBindings address (scope.bindings ++ [binding]) with
                world := values.dup value s.world }
    if mirror then values.mirror name value s₁ else s₁

/-- `scope_set_name`; its answer is whether the name was found and could be set. -/
def scope_set_name (name : String) (value : V) (s : State V W) : Bool × State V W :=
  match s.lookup name with
  | none => (false, s)
  | some (address, i) =>
    if isConstAt address i s then
      (false, { s with error_flag := true })
    else
      let s₁ := overwrite values address i value s
      if (s.scopes address).mirrors && !isLexicalAt address i s₁ then
        (true, values.mirror name value s₁)
      else
        (true, s₁)

/-- The assignment `name = value` in `eval_assign`. -/
def assign_identifier (name : String) (value : V) (s : State V W) : State V W :=
  match scope_set_name values name value s with
  | (true, s) => s
  | (false, s) => scope_declare_name values name value 0 { s with error_flag := false }

def restore (shadow : Shadow V) : List Nat → State V W → State V W
  | [], s => { s with world := values.free shadow.saved s.world }
  | address :: parents, s =>
    match (s.scopes address).find shadow.name with
    | none => restore shadow parents s
    | some i =>
      match (s.scopes address).bindings[i]? with
      | none => s
      | some binding =>
        let s₁ :=
          { s.putBindings address ((s.scopes address).bindings.set i
              { binding with value := shadow.saved }) with
            world := values.free binding.value s.world }
        if (s.scopes address).mirrors && !binding.is_lexical then
          values.mirror shadow.name shadow.saved s₁
        else
          s₁

/-- `shadow_restore_for_scope`: the records are taken out from the newest to the oldest. -/
def shadow_restore_for_scope (popped : Nat) (parents : List Nat) (s : State V W) : State V W :=
  let mine := s.shadow_restore_head.filter fun shadow => shadow.scope == popped
  let others := s.shadow_restore_head.filter fun shadow => shadow.scope != popped
  mine.foldl (fun s shadow => restore values shadow parents s)
    { s with shadow_restore_head := others }

/-- `interp_pop_scope`, up to the release of the scope. -/
def interp_pop_scope (s : State V W) : State V W :=
  match s.chain with
  | [] => s
  | popped :: parents =>
    shadow_restore_for_scope values popped parents { s with chain := parents }

end Operations

end Scopes
end LRJS
