import LRJS.Scopes

/-!
# Assignments to unbound names

What an assignment does when no scope declares the name.  `interp_bc_store_var`, for the virtual
machine, does the same as `eval_assign`.
-/

namespace LRJS.Scopes

variable {V W : Type} {values : Values V W} {s : State V W} {name : String} {value : V}

/-- Writing a property of the global object declares no names. -/
def Values.Quiet (values : Values V W) : Prop :=
  ∀ name value s, (values.mirror name value s).scopes = s.scopes

/-- The name is a global for every later scope that does not shadow it, and the scopes that were
open have no new binding. -/
structure CreatesGlobal (name : String) (value : V) (s after : State V W) : Prop where
  resolves : ∀ inner, (∀ address ∈ inner, (after.scopes address).find name = none) →
    ∃ i, ({ after with chain := inner ++ [s.global_scope] } : State V W).lookup name =
        some (s.global_scope, i) ∧
      (after.scopes s.global_scope).bindings[i]?.map Binding.value = some value
  unchanged : ∀ address ∈ s.chain, address ≠ s.global_scope →
    (after.scopes address).bindings.length = (s.scopes address).bindings.length

/-- The nearest function scope is one of the chain. -/
theorem find_function_scope_mem (rooted : s.global_scope ∈ s.chain) :
    s.find_function_scope ∈ s.chain := by
  unfold State.find_function_scope
  cases found : s.chain.find? fun address =>
      (s.scopes address).is_function_scope || (s.scopes address).is_global_scope with
  | none => exact rooted
  | some address => exact List.mem_of_find?_eq_some found

/-- Declaring an absent name appends its binding. -/
theorem scopes_declare_absent (quiet : values.Quiet)
    (absent : (s.scopes s.find_function_scope).find name = none) :
    (scope_declare_name values name value 0 s).scopes = (s.putBindings s.find_function_scope
      ((s.scopes s.find_function_scope).bindings ++ [⟨name, value, false, false⟩])).scopes := by
  unfold scope_declare_name
  simp only [absent]
  split
  · exact quiet ..
  · rfl

/-- The binding is made in the nearest function scope. -/
theorem scopes_assign_unbound (value : V) (quiet : values.Quiet) (rooted : s.global_scope ∈ s.chain)
    (unbound : s.lookup name = none) :
    (assign_identifier values name value s).scopes = (s.putBindings s.find_function_scope
      ((s.scopes s.find_function_scope).bindings ++ [⟨name, value, false, false⟩])).scopes := by
  have absent := List.findSome?_eq_none_iff.mp unbound _ (find_function_scope_mem rooted)
  rw [Option.map_eq_none_iff] at absent
  simp only [assign_identifier, scope_set_name, unbound]
  exact scopes_declare_absent (s := { s with error_flag := false }) quiet absent

def inert : Values Nat Unit :=
  ⟨fun _ _ => (), fun _ _ => (), fun _ _ s => s⟩

/-- A scope in the global one: a block, or the scope of a function with a parameter `a`. -/
def nested (is_function_scope : Bool) : State Nat Unit :=
  let parameters := if is_function_scope then [⟨"a", 0, false, false⟩] else []
  ⟨[1, 0], 0, fun address => ⟨is_function_scope && address = 1, address = 0, false,
    if address = 1 then parameters else []⟩, [], false, ()⟩

end LRJS.Scopes
