import LRJS.ModuleExports

/-!
# Live exports

What the namespaces of modules should answer, and the steps under which they do.  The top-level
bindings of the modules are followed beside the interpreter, each with a place of its own.
-/

namespace LRJS

open Function List Option Scopes
namespace Modules

open TreeWalker (labelBytes labelBytes_injective)
open Scopes (State Scope Binding Shadow)

variable {V W : Type} (program : Program) (host : Host V W)

abbrev Locals (V : Type) := Local → Option V

def Locals.bindAll (m : Nat) (bound : List (String × V)) (locals : Locals V) : Locals V :=
  bound.foldl (fun locals pair => Function.update locals (m, pair.1) (some pair.2)) locals

open Classical in
noncomputable def Locals.write (m : Nat) (name : String) (value : V) (locals : Locals V) :
    Locals V :=
  fun binding => if ExportedAs program m name binding then some value else locals binding

structure Run (V W : Type) where
  session : Session V W
  locals : Locals V

noncomputable def Run.localsAfter (run : Run V W) : Action V → Locals V
  | .declare m name value _ => run.locals.bindAll m [(name, value)]
  | .assign m name value | .assignSlot m name _ value => run.locals.bindAll m [(name, value)]
  | .evaluate m (.default form) values =>
    run.locals.bindAll m [(form.binding, values.headD host.undefined)]
  | .evaluate m (.declaration _ names) values => run.locals.bindAll m (names.zip values)
  | .write m name value => run.locals.write program m name value
  | .callSetter n value =>
    match run.session.pairs[n]? with
    | some pair =>
      if pair.setters = 0 then run.locals
      else run.locals.write program pair.module_ pair.exported value
    | none => run.locals
  | _ => run.locals

noncomputable def Run.step (run : Run V W) (action : Action V) : Run V W :=
  ⟨run.session.step host action, run.localsAfter program host action⟩

noncomputable def Run.after (run : Run V W) (actions : List (Action V)) : Run V W :=
  actions.foldl (fun run action => run.step program host action) run

def Run.start (interp : State V W) : Run V W where
  session :=
    { interp := interp, released := fun _ => false, pairs := [], spaces := fun _ => [],
      stale := false }
  locals _ := none

def globalValue (interp : State V W) (name : String) : Option V :=
  ((interp.scopes interp.global_scope).find name).bind fun i =>
    (interp.scopes interp.global_scope).bindings[i]?.map Binding.value

/-- No accessor has been used too late, a property of a namespace has the value of the binding
exported under its name, and the bindings have the values that they should. -/
structure Live (run : Run V W) : Prop where
  calm : run.session.stale = false
  reads : ∀ m name binding value, ExportedAs program m name binding →
    run.locals binding = some value → (run.session.entry m name).isSome →
      (run.session.get_property host m name).1 = value
  bindings : ∀ m name value, ¬ Unbound program m name → run.locals (m, name) = some value →
    globalValue run.session.interp name = some value

def binder (interp : State V W) (chain : List Nat) (name : String) : Option Nat :=
  chain.find? fun address => ((interp.scopes address).find name).isSome

namespace Run

variable (run : Run V W)

def Owns (m : Nat) (name : String) : Prop :=
  (run.locals (m, name)).isSome ∧ ¬ Unbound program m name

def NoCopy (binding : Local) : Prop :=
  ∀ m name value, run.session.entry m name = some (.value value) →
    ¬ ExportedAs program m name binding

def Bindable (m : Nat) (name : String) : Prop :=
  (∀ other, other ≠ m → ¬ run.Owns program other name) ∧ run.NoCopy program (m, name) ∧
    ¬ Unbound program m name

def Unowned (name : String) : Prop :=
  ∀ m, ¬ run.Owns program m name

def TopLevel : Prop :=
  run.session.interp.chain = [run.session.interp.global_scope]

def Detachable (m : Nat) (name : String) : Prop :=
  ∀ n pair, run.session.entry m name = some (.accessor n) → run.session.pairs[n]? = some pair →
    pair.setters = 0 ∨ pair.getters ≠ 0

def NoAccessor (m : Nat) (name : String) : Prop :=
  ∀ n, run.session.entry m name ≠ some (.accessor n)

def Ready (m : Nat) (name : String) : Prop :=
  (run.session.entry m name).isSome ∧
    ∃ binding, ExportedAs program m name binding ∧ (run.locals binding).isSome

def Short (name : String) : Prop :=
  name.utf8ByteSize < 256

def Evaluable (m : Nat) : Statement → List V → Prop
  | .default (.class_ name), _ => run.NoAccessor m "default" ∧ run.Bindable program m name
  | .default form, _ => run.NoAccessor m "default" ∧ run.NoCopy program (m, form.binding)
  | .named specifiers none, _ =>
    ∀ specifier ∈ specifiers, ∃ name, specifier.name = .identifier name ∧
      (specifier.alias_ = none ∨ specifier.alias_ = some (.identifier name)) ∧ Short name ∧
      ¬ Unbound program m name ∧ ¬ Imported program m name ∧ run.Detachable m name
  | .named specifiers (some source), _ =>
    ∀ specifier ∈ specifiers, ∃ name, specifier.name = .identifier name ∧
      (specifier.alias_ = none ∨ ∃ alias_, specifier.alias_ = some (.identifier alias_)) ∧
      run.NoAccessor m specifier.exported ∧ run.Ready program source name
  | .all source, _ =>
    ∀ name ∈ (run.session.spaces source).map Prod.fst, name ≠ "default" →
      ¬ Explicit program m name ∧ run.NoAccessor m name ∧ run.Ready program source name
  | .declaration _ names, values =>
    names.length = values.length ∧
      ∀ name ∈ names, run.Bindable program m name ∧ Short name ∧ run.Detachable m name
  | .import_ source specifiers, _ =>
    ∀ names ∈ specifiers, run.Ready program source names.1 ∧
      (run.Unowned program names.2 ∨ ∃ binding, ExportedAs program source names.1 binding ∧
        binding.2 = names.2 ∧ ¬ Unbound program binding.1 binding.2 ∧
        ∀ other, other ≠ binding.1 → ¬ run.Owns program other binding.2)

def Writable (m : Nat) (name : String) : Prop :=
  ∃ binding, ExportedAs program m name binding ∧ (run.locals binding).isSome ∧
    run.Bindable program binding.1 binding.2

def Meets : Action V → Prop
  | .declare m name _ _ => run.TopLevel ∧ run.Bindable program m name
  | .assign m name _ =>
    (∃ i, run.session.interp.lookup name = some (run.session.interp.global_scope, i) ∧
      Scopes.isConstAt run.session.interp.global_scope i run.session.interp = false) ∧
      run.Bindable program m name
  | .assignSlot m name slot _ =>
    (run.session.interp.chain.head? = some run.session.interp.global_scope ∧
      (run.session.interp.scopes run.session.interp.global_scope).find name = some slot ∧
      Scopes.isConstAt run.session.interp.global_scope slot run.session.interp = false) ∧
      run.Bindable program m name
  | .bind name _ _ =>
    run.session.interp.find_function_scope ≠ run.session.interp.global_scope ∨
      run.Unowned program name
  | .assignInner name _ =>
    (∃ place, run.session.interp.lookup name = some place ∧
      place.1 ≠ run.session.interp.global_scope ∧
      Scopes.isConstAt place.1 place.2 run.session.interp = false) ∨ run.Unowned program name
  | .assignInnerSlot slot _ =>
    run.session.interp.chain.head? = some run.session.interp.global_scope → ∀ name,
      (run.session.interp.scopes run.session.interp.global_scope).find name = some slot →
        run.Unowned program name
  | .enter address _ => address ≠ run.session.interp.global_scope
  | .leave => ∀ popped parents, run.session.interp.chain = popped :: parents →
      ∀ shadow ∈ run.session.interp.shadow_restore_head, shadow.scope = popped →
        binder run.session.interp parents shadow.name ≠ some run.session.interp.global_scope ∨
          run.Unowned program shadow.name
  | .release address => address ≠ run.session.interp.global_scope
  | .evaluate m statement values =>
    run.TopLevel ∧ statement ∈ program m ∧ run.Evaluable program m statement values
  | .write m name _ => (∃ n, run.session.entry m name = some (.accessor n)) ∧
      run.Writable program m name
  | .delete m name => run.Detachable m name
  | .dropGetter n => ∀ pair, run.session.pairs[n]? = some pair →
      pair.setters = 0 ∨ pair.installed = true ∨ 2 ≤ pair.getters
  | .callSetter n _ => ∀ pair, run.session.pairs[n]? = some pair → pair.setters ≠ 0 →
      run.Writable program pair.module_ pair.exported
  | .read .. | .descriptor .. | .dropSetter _ | .callGetter _ => True

noncomputable def AllMeet (run : Run V W) : List (Action V) → Prop
  | [] => True
  | action :: actions =>
    run.Meets program action ∧ AllMeet (run.step program host action) actions

end Run

section Slots

variable {name other : String} {value : V} {bindings : List (Binding V)}

def slotValue (bindings : List (Binding V)) (name : String) : Option V :=
  (bindings.findIdx? fun binding => binding.name == name).bind fun i =>
    bindings[i]?.map Binding.value

theorem slotValue_cons (head : Binding V) (tail : List (Binding V)) :
    slotValue (head :: tail) name =
      if head.name = name then some head.value else slotValue tail name := by
  unfold slotValue
  rw [findIdx?_cons]
  by_cases same : head.name = name
  · simp [same]
  · simp only [same, beq_iff_eq, if_false]
    cases tail.findIdx? fun binding => binding.name == name <;> simp

/-- A new value of a binding is read under its name. -/
theorem slotValue_set (name : String) (value : V) {i : Nat} {binding : Binding V}
    (there : bindings[i]? = some binding) :
    slotValue (bindings.set i { binding with value := value }) name =
      if bindings.findIdx? (fun binding => binding.name == name) = some i then some value
      else slotValue bindings name := by
  induction bindings generalizing i with
  | nil => cases there
  | cons head tail ih =>
    rw [findIdx?_cons]
    cases i with
    | zero =>
      obtain rfl := some.inj there
      rw [set_cons_zero, slotValue_cons, slotValue_cons]
      by_cases same : head.name = name
      · simp [same]
      · simp only [same, beq_iff_eq, if_false]
        cases tail.findIdx? fun binding => binding.name == name <;> simp
    | succ i =>
      rw [set_cons_succ, slotValue_cons, slotValue_cons]
      by_cases same : head.name = name
      · simp [same]
      · simp only [same, beq_iff_eq, if_false]
        rw [ih there]
        cases tail.findIdx? fun binding => binding.name == name <;> simp

theorem slotValue_append (binding : Binding V) :
    slotValue (bindings ++ [binding]) name =
      (slotValue bindings name).or (if binding.name = name then some binding.value else none) := by
  induction bindings with
  | nil =>
    rw [nil_append, slotValue_cons]
    rfl
  | cons head tail ih =>
    rw [cons_append, slotValue_cons, slotValue_cons, ih]
    split <;> rfl

structure Keeps (kept : String → Prop) (before after : State V W) : Prop where
  global_scope : after.global_scope = before.global_scope
  slots : ∀ name, kept name → globalValue after name = globalValue before name

structure Sets (name : String) (value : V) (before after : State V W) : Prop where
  chain : after.chain = before.chain
  global_scope : after.global_scope = before.global_scope
  own : globalValue after name = some value
  others : ∀ other, other ≠ name → globalValue after other = globalValue before other

variable {kept : String → Prop}

theorem Keeps.refl (interp : State V W) : Keeps kept interp interp :=
  ⟨rfl, fun _ _ => rfl⟩

theorem Keeps.trans {first second third : State V W}
    (before : Keeps kept first second) (after : Keeps kept second third) : Keeps kept first third :=
  ⟨after.global_scope.trans before.global_scope,
    fun name held => (after.slots name held).trans (before.slots name held)⟩

variable {before : State V W} {after : State V W}

theorem Keeps.mono {fewer : String → Prop} (keeps : Keeps kept before after)
    (less : ∀ name, fewer name → kept name) :
    Keeps fewer before after :=
  ⟨keeps.global_scope, fun name held => keeps.slots name (less name held)⟩

theorem Sets.keeps (sets : Sets name value before after) :
    Keeps (· ≠ name) before after :=
  ⟨sets.global_scope, sets.others⟩

variable {host} {interp : State V W} {address i : Nat}

theorem overwrite_elsewhere (elsewhere : address ≠ interp.global_scope) :
    Keeps (fun _ => True) interp (Scopes.overwrite host.values address i value interp) := by
  unfold overwrite
  split
  · exact Keeps.refl interp
  · refine ⟨rfl, fun name _ => ?_⟩
    simp [globalValue, State.putBindings, update_of_ne elsewhere.symm]

theorem overwrite_chain :
    (Scopes.overwrite host.values address i value interp).chain = interp.chain := by
  unfold overwrite
  split <;> rfl

theorem find_bound {scope : Scope V} (found : scope.find name = some i) :
    ∃ binding, scope.bindings[i]? = some binding := by
  obtain ⟨inside, -, -⟩ := findIdx?_eq_some_iff_getElem.mp found
  exact ⟨scope.bindings[i], getElem?_eq_getElem inside⟩

theorem find_injective {scope : Scope V} (found : scope.find name = some i)
    (same : scope.find other = some i) : name = other := by
  obtain ⟨_, first, -⟩ := findIdx?_eq_some_iff_getElem.mp found
  obtain ⟨_, second, -⟩ := findIdx?_eq_some_iff_getElem.mp same
  exact (eq_of_beq first).symm.trans (eq_of_beq second)

/-- Overwriting the global binding of a name sets its value. -/
theorem overwrite_slot (host : Host V W) (value : V)
    (found : (interp.scopes interp.global_scope).find name = some i) :
    Sets name value interp
      (Scopes.overwrite host.values interp.global_scope i value interp) := by
  obtain ⟨binding, there⟩ := find_bound found
  have slots : ∀ other, globalValue
      (overwrite host.values interp.global_scope i value interp) other =
        slotValue ((interp.scopes interp.global_scope).bindings.set i
          { binding with value := value }) other := by
    intro other
    simp only [overwrite, there, globalValue, State.putBindings, update_self]
    rfl
  refine ⟨overwrite_chain, ?_, ?_, ?_⟩
  · simp only [overwrite, there]
    rfl
  · rw [slots, slotValue_set name value there]
    exact if_pos found
  · intro other different
    rw [slots, slotValue_set other value there]
    refine if_neg ?_
    intro same
    exact different (find_injective same found)

structure SameScopes (before after : State V W) : Prop where
  chain : after.chain = before.chain
  global_scope : after.global_scope = before.global_scope
  scopes : after.scopes = before.scopes

theorem SameScopes.globalValue (same : SameScopes before after) (name : String) :
    globalValue after name = globalValue before name := by
  unfold Modules.globalValue
  rw [same.scopes, same.global_scope]

theorem Sets.congr {first second third fourth : State V W} (before : SameScopes first second)
    (sets : Sets name value second third) (after : SameScopes third fourth) :
    Sets name value first fourth where
  chain := after.chain.trans (sets.chain.trans before.chain)
  global_scope := after.global_scope.trans (sets.global_scope.trans before.global_scope)
  own := (after.globalValue name).trans sets.own
  others other different :=
    (after.globalValue other).trans ((sets.others other different).trans (before.globalValue other))

theorem SameScopes.keeps (same : SameScopes before after) : Keeps kept before after :=
  ⟨same.global_scope, fun name _ => same.globalValue name⟩

theorem store_same {scope : Nat} {parents : List Nat} (chain : interp.chain = scope :: parents) :
    SameScopes (Scopes.overwrite host.values scope i value interp)
      (store_local host i value interp) := by
  cases there : (interp.scopes scope).bindings[i]? with
  | none =>
    simp only [store_local, overwrite, chain, there]
    exact ⟨chain.symm, rfl, rfl⟩
  | some binding =>
    simp only [store_local, overwrite, chain, there]
    exact ⟨rfl, rfl, rfl⟩

theorem store_slot (current : interp.chain.head? = some interp.global_scope)
    (found : (interp.scopes interp.global_scope).find name = some i) :
    Sets name value interp (store_local host i value interp) := by
  obtain ⟨parents, chain⟩ := head?_eq_some_iff.mp current
  exact Sets.congr ⟨rfl, rfl, rfl⟩ (overwrite_slot host value found) (store_same chain)

/-- A slot of the global scope is written only if it is the one that a search by name finds. -/
theorem overwrite_keeps
    (apart : ∀ name, (interp.scopes interp.global_scope).find name = some i → ¬ kept name) :
    Keeps kept interp
      (Scopes.overwrite host.values interp.global_scope i value interp) := by
  unfold overwrite
  split
  · exact Keeps.refl interp
  · next binding there =>
      refine ⟨rfl, fun name held => ?_⟩
      simp only [globalValue, State.putBindings, update_self]
      exact (slotValue_set name value there).trans (if_neg fun found => apart name found held)

theorem store_keeps (apart : interp.chain.head? = some interp.global_scope → ∀ name,
      (interp.scopes interp.global_scope).find name = some i → ¬ kept name) :
    Keeps kept interp (store_local host i value interp) := by
  cases chain : interp.chain with
  | nil =>
    unfold store_local
    rw [chain]
    exact ⟨rfl, fun _ _ => rfl⟩
  | cons scope parents =>
    refine Keeps.trans ?_ (store_same chain).keeps
    by_cases here : scope = interp.global_scope
    · subst here
      exact overwrite_keeps (apart (by rw [chain]; rfl))
    · exact (overwrite_elsewhere here).mono fun _ _ => trivial

/-- A declaration overwrites a binding of the function scope or adds one, after a value may have
been saved and before it may be mirrored. -/
theorem declare_parts (host : Host V W) (interp : State V W) (name : String) (value : V)
    (kind : Nat) :
    ∃ before after, SameScopes interp before ∧
      SameScopes after (Scopes.scope_declare_name host.values name value kind interp) ∧
      ((∃ i, (interp.scopes interp.find_function_scope).find name = some i ∧
          after = Scopes.overwrite host.values interp.find_function_scope i value before) ∨
        ((interp.scopes interp.find_function_scope).find name = none ∧
          ∃ binding : Binding V, binding.name = name ∧ binding.value = value ∧
            after = before.putBindings interp.find_function_scope
              ((interp.scopes interp.find_function_scope).bindings ++ [binding]))) := by
  unfold scope_declare_name
  cases found : (interp.scopes interp.find_function_scope).find name with
  | none =>
    let binding : Binding V :=
      ⟨name, value, false,
        decide (kind ≠ 0) && (interp.scopes interp.find_function_scope).mirrors⟩
    refine ⟨interp, _, ⟨rfl, rfl, rfl⟩, ?_, .inr ⟨rfl, binding, rfl, rfl, rfl⟩⟩
    simp only [found]
    split <;> exact ⟨rfl, rfl, rfl⟩
  | some i =>
    obtain ⟨old, there⟩ := find_bound found
    cases saves : interp.saves kind interp.find_function_scope with
    | false =>
      simp only [found, saves]
      refine ⟨interp, _, ⟨rfl, rfl, rfl⟩, ?_, .inl ⟨i, rfl, rfl⟩⟩
      split <;> exact ⟨rfl, rfl, rfl⟩
    | true =>
      simp only [found, saves, there]
      let saved : State V W :=
        { interp.shadow_save name old.value with
          world := host.values.dup old.value interp.world }
      have same : SameScopes interp saved := by
        unfold saved State.shadow_save
        split <;> exact ⟨rfl, rfl, rfl⟩
      refine ⟨saved, _, same, ?_, .inl ⟨i, rfl, rfl⟩⟩
      split <;> exact ⟨rfl, rfl, rfl⟩

/-- A declaration in another scope keeps the global bindings. -/
theorem declare_elsewhere {kind : Nat}
    (elsewhere : interp.find_function_scope ≠ interp.global_scope) :
    Keeps (fun _ => True) interp
      (Scopes.scope_declare_name host.values name value kind interp) := by
  obtain ⟨before, after, same, same', overwritten | added⟩ :=
    declare_parts host interp name value kind
  · obtain ⟨i, -, rfl⟩ := overwritten
    have other : interp.find_function_scope ≠ before.global_scope := by
      rw [same.global_scope]
      exact elsewhere
    exact same.keeps.trans ((overwrite_elsewhere other).trans same'.keeps)
  · obtain ⟨-, binding, -, -, rfl⟩ := added
    have other : before.global_scope ≠ interp.find_function_scope := by
      rw [same.global_scope]
      exact elsewhere.symm
    have kept : Keeps (fun _ => True) before
        (before.putBindings interp.find_function_scope
          ((interp.scopes interp.find_function_scope).bindings ++ [binding])) := by
      refine ⟨rfl, fun name _ => ?_⟩
      simp only [globalValue, State.putBindings, update_of_ne other]
    exact same.keeps.trans (kept.trans same'.keeps)

/-- A declaration in the global scope sets the binding of its name. -/
theorem declare_slot {kind : Nat} (here : interp.find_function_scope = interp.global_scope) :
    Sets name value interp
      (Scopes.scope_declare_name host.values name value kind interp) := by
  obtain ⟨before, after, same, same', overwritten | added⟩ :=
    declare_parts host interp name value kind
  · obtain ⟨i, found, rfl⟩ := overwritten
    rw [here] at found same'
    rw [← same.global_scope, ← same.scopes] at found
    rw [← same.global_scope] at same'
    exact Sets.congr same (overwrite_slot host value found) same'
  · obtain ⟨absent, binding, rfl, rfl, rfl⟩ := added
    refine Sets.congr same ?_ same'
    rw [here] at absent ⊢
    rw [← same.global_scope, ← same.scopes] at absent ⊢
    have slots : ∀ other, globalValue
        (before.putBindings before.global_scope
          ((before.scopes before.global_scope).bindings ++ [binding])) other =
        (globalValue before other).or
          (if binding.name = other then some binding.value else none) := by
      intro other
      simp only [globalValue, State.putBindings, update_self]
      exact slotValue_append binding
    have unbound : globalValue before binding.name = none := by
      unfold globalValue
      rw [absent]
      rfl
    refine ⟨rfl, rfl, ?_, ?_⟩
    · rw [slots, unbound, if_pos rfl]
      rfl
    · intro other different
      rw [slots, if_neg different.symm, or_none]

theorem declare_keeps {kind : Nat}
    (apart : interp.find_function_scope ≠ interp.global_scope ∨ ¬ kept name) :
    Keeps kept interp (Scopes.scope_declare_name host.values name value kind interp) := by
  by_cases here : interp.find_function_scope = interp.global_scope
  · have notKept := apart.resolve_left fun elsewhere => elsewhere here
    refine (declare_slot here).keeps.mono ?_
    rintro other held rfl
    exact notKept held
  · exact (declare_elsewhere here).mono fun _ _ => trivial

theorem mirror_same (interp : State V W) :
    SameScopes interp (host.values.mirror name value interp) :=
  ⟨rfl, rfl, rfl⟩

/-- An assignment overwrites the variable binding it finds, or declares the name. -/
theorem assign_parts (host : Host V W) (interp : State V W) (name : String) (value : V) :
    (∃ place, interp.lookup name = some place ∧
      Scopes.isConstAt place.1 place.2 interp = false ∧
      SameScopes (Scopes.overwrite host.values place.1 place.2 value interp)
        (Scopes.assign_identifier host.values name value interp)) ∨
    ((∀ place, interp.lookup name = some place → Scopes.isConstAt place.1 place.2 interp = true) ∧
      ∃ before, SameScopes interp before ∧
        Scopes.assign_identifier host.values name value interp =
          Scopes.scope_declare_name host.values name value 0 before) := by
  unfold assign_identifier scope_set_name
  cases found : interp.lookup name with
  | none =>
    refine .inr ⟨?_, { interp with error_flag := false }, ⟨rfl, rfl, rfl⟩, rfl⟩
    intro place absurd_
    cases absurd_
  | some place =>
    by_cases const : isConstAt place.1 place.2 interp = true
    · refine .inr ⟨?_, { interp with error_flag := false }, ⟨rfl, rfl, rfl⟩, ?_⟩
      · intro other same
        rw [← some.inj same]
        exact const
      · simp [const]
    · refine .inl ⟨place, rfl, Bool.eq_false_iff.mpr const, ?_⟩
      simp only [const, Bool.false_eq_true, if_false]
      cases (interp.scopes place.1).mirrors && !Scopes.isLexicalAt place.1 place.2
          (overwrite host.values place.1 place.2 value interp) with
      | true | false => exact ⟨rfl, rfl, rfl⟩

theorem assign_slot (found : interp.lookup name = some (interp.global_scope, i))
    (plain : Scopes.isConstAt interp.global_scope i interp = false) :
    Sets name value interp (Scopes.assign_identifier host.values name value interp) := by
  rcases assign_parts host interp name value with ⟨place, there, -, same⟩ | ⟨const, -⟩
  · rw [found] at there
    obtain rfl := some.inj there
    have sets := overwrite_slot host value (find_of_lookup found)
    exact Sets.congr ⟨rfl, rfl, rfl⟩ sets same
  · rw [const _ found] at plain
    cases plain

/-- An assignment that finds its name elsewhere keeps the global bindings. -/
theorem assign_keeps
    (apart : (∃ place, interp.lookup name = some place ∧ place.1 ≠ interp.global_scope ∧
      Scopes.isConstAt place.1 place.2 interp = false) ∨ ¬ kept name) :
    Keeps kept interp (Scopes.assign_identifier host.values name value interp) := by
  rcases assign_parts host interp name value with
    ⟨place, there, -, same⟩ | ⟨const, before, same, eq⟩
  · by_cases elsewhere : place.1 = interp.global_scope
    · have notKept : ¬ kept name := by
        refine apart.resolve_left ?_
        rintro ⟨other, found, different, -⟩
        rw [there] at found
        rw [← some.inj found] at different
        exact different elsewhere
      have found := find_of_lookup there
      rw [elsewhere] at found same
      refine (overwrite_slot host value found).keeps.mono ?_ |>.trans same.keeps
      rintro other held rfl
      exact notKept held
    · exact ((overwrite_elsewhere elsewhere).mono fun _ _ => trivial).trans same.keeps
  · have notKept : ¬ kept name := by
      refine apart.resolve_left ?_
      rintro ⟨other, found, -, plain⟩
      rw [const _ found] at plain
      cases plain
    rw [eq]
    exact same.keeps.trans (declare_keeps (.inr notKept))

theorem findIdx?_set {binding : Binding V} (there : bindings[i]? = some binding) :
    (bindings.set i { binding with value := value }).findIdx? (fun b => b.name == name) =
      bindings.findIdx? fun b => b.name == name := by
  induction bindings generalizing i with
  | nil => rfl
  | cons head tail ih =>
    cases i with
    | zero =>
      obtain rfl := some.inj there
      simp only [set_cons_zero, findIdx?_cons]
    | succ i =>
      simp only [set_cons_succ, findIdx?_cons]
      rw [ih there]

/-- Putting a saved value back leaves the bindings that are kept. -/
theorem restore_keeps (host : Host V W) (shadow : Shadow V)
    (parents : List Nat) (interp : State V W)
    (apart : binder interp parents shadow.name ≠ some interp.global_scope ∨ ¬ kept shadow.name) :
    Keeps kept interp (Scopes.restore host.values shadow parents interp) ∧
      ∀ address other, ((Scopes.restore host.values shadow parents interp).scopes address).find
        other = (interp.scopes address).find other := by
  induction parents with
  | nil => exact ⟨⟨rfl, fun _ _ => rfl⟩, fun _ _ => rfl⟩
  | cons address parents ih =>
    unfold restore
    unfold binder at apart
    rw [find?_cons] at apart
    cases found : (interp.scopes address).find shadow.name with
    | none =>
      rw [found] at apart
      exact ih apart
    | some i =>
      rw [found] at apart
      obtain ⟨binding, there⟩ := find_bound found
      let after : State V W :=
        { interp.putBindings address ((interp.scopes address).bindings.set i
            { binding with value := shadow.saved }) with
          world := host.values.free binding.value interp.world }
      have kept_ : Keeps kept interp after := by
        refine ⟨rfl, fun name held => ?_⟩
        by_cases here : interp.global_scope = address
        · have different : shadow.name ≠ name := by
            rintro rfl
            rcases apart with elsewhere | notKept
            · exact elsewhere (congrArg some here.symm)
            · exact notKept held
          subst here
          simp only [after, globalValue, State.putBindings, update_self]
          refine (slotValue_set name shadow.saved there).trans (if_neg ?_)
          intro same
          exact different (find_injective found same)
        · simp only [after, globalValue, State.putBindings, update_of_ne here]
      have names : ∀ place other, (after.scopes place).find other =
          (interp.scopes place).find other := by
        intro place other
        by_cases here : place = address
        · subst here
          simp only [after, State.putBindings, update_self]
          exact findIdx?_set there
        · simp only [after, State.putBindings, update_of_ne here]
      simp only [there]
      split
      · exact ⟨kept_.trans (mirror_same after).keeps, names⟩
      · exact ⟨kept_, names⟩

/-- Leaving a scope keeps the bindings that no saved value belongs to. -/
theorem pop_keeps (host : Host V W) (interp : State V W)
    (apart : ∀ popped parents, interp.chain = popped :: parents →
      ∀ shadow ∈ interp.shadow_restore_head, shadow.scope = popped →
        binder interp parents shadow.name ≠ some interp.global_scope ∨ ¬ kept shadow.name) :
    Keeps kept interp (Scopes.interp_pop_scope host.values interp) := by
  have all : ∀ (mine : List (Shadow V)) (parents : List Nat) (now : State V W),
      (∀ shadow ∈ mine, binder now parents shadow.name ≠ some now.global_scope ∨
        ¬ kept shadow.name) →
      Keeps kept now
        (mine.foldl (fun s shadow => restore host.values shadow parents s) now) := by
    intro mine parents
    induction mine with
    | nil => exact fun now _ => Keeps.refl now
    | cons shadow rest ih =>
      intro now apart
      obtain ⟨keeps, names⟩ := restore_keeps host shadow parents now
        (apart shadow mem_cons_self)
      refine keeps.trans (ih _ fun other member => ?_)
      have before := apart other (mem_cons_of_mem _ member)
      have same : binder (restore host.values shadow parents now) parents other.name =
          binder now parents other.name := by
        unfold binder
        simp only [names]
      rw [same, keeps.global_scope]
      exact before
  unfold interp_pop_scope
  cases chain : interp.chain with
  | nil => exact Keeps.refl interp
  | cons popped parents =>
    refine Keeps.trans ?_ (all _ parents _ ?_)
    · exact ⟨rfl, fun _ _ => rfl⟩
    · intro shadow member
      obtain ⟨there, own⟩ := mem_filter.mp member
      exact apart popped parents chain shadow there (eq_of_beq own)

end Slots

end Modules
end LRJS
