import LRJS.LiveBindings

/-!
# The exports stay live

Every step that meets its condition keeps what is `Consistent`, and so do runs.
-/

namespace LRJS

open Function List Option
namespace Modules

open TreeWalker (labelBytes labelBytes_injective)
open Scopes (State Scope Binding Shadow)

variable {V W : Type} {program : Program} {host : Host V W}

/-- The pair refers to the binding that is exported under its name, and its data is there as long
as its setter is. -/
structure Pair.Refers (program : Program) (global_scope : Nat) (pair : Pair) : Prop where
  scope : pair.scope = [global_scope]
  name : ∀ binding, ExportedAs program pair.module_ pair.exported binding →
    pair.name = labelBytes binding.2 ∧ ¬ Unbound program binding.1 binding.2
  alive : pair.setters ≠ 0 → pair.alive = true

structure Consistent (program : Program) (run : Run V W) : Prop where
  calm : run.session.stale = false
  kept : run.session.released run.session.interp.global_scope = false
  bound : ∀ m name value, ¬ Unbound program m name → run.locals (m, name) = some value →
    globalValue run.session.interp name = some value
  pairs : ∀ (n : Nat) (pair : Pair), run.session.pairs[n]? = some pair →
    pair.Refers program run.session.interp.global_scope
  accessors : ∀ m name n, run.session.entry m name = some (.accessor n) →
    ∃ pair, run.session.pairs[n]? = some pair ∧ pair.installed = true ∧ pair.module_ = m ∧
      pair.exported = name
  copies : ∀ m name copy binding value, run.session.entry m name = some (.value copy) →
    ExportedAs program m name binding → run.locals binding = some value → copy = value

theorem Consistent.start {interp : State V W} : Consistent program (Run.start interp) where
  calm := rfl
  kept := rfl
  bound m name value _ found := by cases found
  pairs n pair found := by cases found
  accessors m name n found := by cases found
  copies m name copy binding value found := by cases found

/-! ## Reading -/

namespace Session

variable {s : Session V W}

theorem find_global (g : Nat) (name : String) :
    s.find [g] (labelBytes name) = ((s.interp.scopes g).find name).map fun i => (g, i) := by
  have same : (fun binding : Binding V => labelBytes binding.name == labelBytes name) =
      fun binding => binding.name == name := by
    funext binding
    exact Bool.eq_iff_iff.mpr (by simp [labelBytes_injective.eq_iff])
  simp only [find, findSome?_cons, findSome?_nil, same]
  unfold Scope.find
  cases (s.interp.scopes g).bindings.findIdx? fun binding => binding.name == name <;> rfl

theorem touch_eq {pair : Pair} {g : Nat} (alive : pair.alive = true) (scope : pair.scope = [g])
    (kept : s.released g = false) : s.touch pair = s := by
  unfold touch
  simp [alive, scope, kept]

theorem live_bind_getter_eq {n g : Nat} {pair : Pair} {name : String}
    (found : s.pairs[n]? = some pair) (alive : pair.alive = true) (scope : pair.scope = [g])
    (kept : s.released g = false) (named : pair.name = labelBytes name) :
    s.live_bind_getter host n =
      ((((s.interp.scopes g).find name).bind fun i =>
        (s.interp.scopes g).bindings[i]?.map Binding.value).getD host.undefined, s) := by
  unfold live_bind_getter
  simp only [found, touch_eq alive scope kept, scope, named, find_global]
  cases (s.interp.scopes g).find name <;> rfl

end Session

namespace Consistent

variable {run : Run V W}

theorem get_property (consistent : Consistent program run) (host : Host V W) (m : Nat)
    (name : String) :
    (run.session.get_property host m name).2 = run.session ∧
      ∀ binding value, ExportedAs program m name binding → run.locals binding = some value →
        (run.session.entry m name).isSome → (run.session.get_property host m name).1 = value := by
  unfold Session.get_property
  cases there : run.session.entry m name with
  | none =>
    refine ⟨rfl, fun binding value _ _ absent => ?_⟩
    cases absent
  | some entry =>
    cases entry with
    | value copy =>
      exact ⟨rfl, fun binding value exported bound _ =>
        consistent.copies m name copy binding value there exported bound⟩
    | accessor n =>
      obtain ⟨pair, found, installed, rfl, rfl⟩ := consistent.accessors m name n there
      have refers := consistent.pairs n pair found
      have alive : pair.alive = true := by
        unfold Pair.alive
        rw [installed, Bool.true_or]
      refine ⟨?_, fun binding value exported bound _ => ?_⟩
      · simp only [Session.live_bind_getter, found]
        exact Session.touch_eq alive refers.scope consistent.kept
      · obtain ⟨named, inScope⟩ := refers.name binding exported
        have slot := consistent.bound binding.1 binding.2 value inScope bound
        simp only [Session.live_bind_getter_eq found alive refers.scope consistent.kept named]
        unfold globalValue at slot
        rw [slot]
        rfl

theorem live (consistent : Consistent program run) : Live program host run where
  calm := consistent.calm
  reads _ _ binding value exported bound present :=
    (consistent.get_property host _ _).2 binding value exported bound present
  bindings := consistent.bound

/-! ## Writing -/

theorem keep (consistent : Consistent program run) {interp : State V W}
    (keeps : Keeps (fun name => ∃ m, run.Owns program m name) run.session.interp interp) :
    Consistent program ⟨{ run.session with interp := interp }, run.locals⟩ where
  calm := consistent.calm
  kept := by
    rw [keeps.global_scope]
    exact consistent.kept
  bound m name value inScope found := by
    have owned : ∃ m, run.Owns program m name := by
      refine ⟨m, ?_, inScope⟩
      rw [found]
      rfl
    exact (keeps.slots name owned).trans (consistent.bound m name value inScope found)
  pairs n pair found := by
    rw [keeps.global_scope]
    exact consistent.pairs n pair found
  accessors := consistent.accessors
  copies := consistent.copies

variable {m : Nat} {name : String} {value : V}

/-- A binding that a module may set keeps the exports live. -/
theorem bind (consistent : Consistent program run) {interp : State V W}
    (bindable : run.Bindable program m name) (sets : Sets name value run.session.interp interp) :
    Consistent program
      ⟨{ run.session with interp := interp },
        update run.locals (m, name) (some value)⟩ where
  calm := consistent.calm
  kept := by
    rw [sets.global_scope]
    exact consistent.kept
  bound m' name' value' inScope found := by
    by_cases here : (m', name') = (m, name)
    · cases here
      have same : some value = some value' :=
        (update_self (m, name) (some value) run.locals).symm.trans found
      exact sets.own.trans same
    · have found' : run.locals (m', name') = some value' :=
        (update_of_ne here (some value) run.locals).symm.trans found
      have different : name' ≠ name := by
        rintro rfl
        have other : m' ≠ m := fun same => here (by rw [same])
        refine bindable.1 m' other ⟨?_, inScope⟩
        rw [found']
        rfl
      exact (sets.others name' different).trans
        (consistent.bound m' name' value' inScope found')
  pairs n pair found := by
    rw [sets.global_scope]
    exact consistent.pairs n pair found
  accessors := consistent.accessors
  copies m' name' copy binding value' there exported found := by
    have other : binding ≠ (m, name) := by
      rintro rfl
      exact bindable.2.1 m' name' copy there exported
    have found' : run.locals binding = some value' :=
      (update_of_ne other (some value) run.locals).symm.trans found
    exact consistent.copies m' name' copy binding value' there exported found'

theorem write_eq {binding : Local} {locals : Locals V}
    (exported : ExportedAs program m name binding) :
    locals.write program m name value = Function.update locals binding (some value) := by
  funext other
  unfold Locals.write
  by_cases here : other = binding
  · subst here
    rw [if_pos exported, update_self]
  · have notExported : ¬ ExportedAs program m name other :=
      fun also => here (exported.2 other also.1)
    rw [if_neg notExported, update_of_ne here]

theorem live_bind_setter (consistent : Consistent program run) {n : Nat} {pair : Pair}
    (value : V) (found : run.session.pairs[n]? = some pair) (alive : pair.alive = true)
    (writable : run.Writable program pair.module_ pair.exported) :
    Consistent program
      ⟨run.session.live_bind_setter host n value,
        run.locals.write program pair.module_ pair.exported value⟩ := by
  obtain ⟨binding, exported, bound, bindable⟩ := writable
  have refers := consistent.pairs n pair found
  obtain ⟨named, inScope⟩ := refers.name binding exported
  obtain ⟨old, before⟩ := isSome_iff_exists.mp bound
  have slot := consistent.bound binding.1 binding.2 old inScope before
  obtain ⟨i, place, -⟩ := bind_eq_some_iff.mp slot
  have sets := overwrite_slot host value place
  have set : run.session.live_bind_setter host n value =
      { run.session with
        interp := Scopes.overwrite host.values run.session.interp.global_scope i value
          run.session.interp } := by
    unfold Session.live_bind_setter
    simp [found, refers.scope, named, Session.find_global, place,
      Session.touch_eq alive refers.scope consistent.kept]
  rw [set, write_eq exported]
  exact consistent.bind bindable sets

/-! ## Properties -/

variable {properties : List (String × Entry V)}

theorem lookup_putEntry {other : String} {entry : Entry V} :
    (putEntry name entry properties).lookup other =
      if other = name then some entry else properties.lookup other := by
  induction properties with
  | nil =>
    by_cases same : other = name
    · simp [putEntry, same]
    · simp [putEntry, same]
  | cons head tail ih =>
    obtain ⟨found, old⟩ := head
    by_cases there : found = name
    · by_cases same : other = name
      · simp [putEntry, there, same]
      · simp [putEntry, there, lookup_cons, same, beq_eq_false_iff_ne.mpr same]
    · by_cases same : other = found
      · simp [putEntry, there, same]
      · simp only [putEntry, if_neg there, lookup_cons, beq_eq_false_iff_ne.mpr same, ih]

variable {s : Session V W}

theorem entry_put {m' : Nat} {name' : String} {entry : Entry V} :
    (s.put m name entry).entry m' name' =
      if m' = m ∧ name' = name then some entry else s.entry m' name' := by
  unfold Session.put Session.entry
  by_cases here : m' = m
  · subst here
    simp [lookup_putEntry]
  · simp [here]

theorem put_value (consistent : Consistent program run) {copy : V}
    (same : ∀ binding value, ExportedAs program m name binding →
      run.locals binding = some value → copy = value) :
    Consistent program ⟨run.session.put m name (.value copy), run.locals⟩ where
  calm := consistent.calm
  kept := consistent.kept
  bound := consistent.bound
  pairs := consistent.pairs
  accessors m' name' n there := by
    rw [entry_put] at there
    split at there
    · cases there
    · exact consistent.accessors m' name' n there
  copies m' name' copy' binding value there exported found := by
    rw [entry_put] at there
    split at there
    · next here =>
        obtain ⟨rfl, rfl⟩ := here
        cases there
        exact same binding value exported found
    · exact consistent.copies m' name' copy' binding value there exported found

theorem getElem?_onPair {f : Pair → Pair} {i n : Nat} {pair : Pair}
    (found : (s.onPair i f).pairs[n]? = some pair) :
    ∃ before, s.pairs[n]? = some before ∧ (if i = n then f before else before) = pair := by
  unfold Session.onPair at found
  rw [getElem?_modify] at found
  exact map_eq_some_iff.mp found

theorem detach_same (s : Session V W) (m : Nat) (name : String) :
    (s.detach m name).interp = s.interp ∧ (s.detach m name).released = s.released ∧
      (s.detach m name).spaces = s.spaces ∧ (s.detach m name).stale = s.stale ∧
      (s.detach m name).pairs.length = s.pairs.length := by
  unfold Session.detach
  split
  · exact ⟨rfl, rfl, rfl, rfl, length_modify ..⟩
  · exact ⟨rfl, rfl, rfl, rfl, rfl⟩

section

variable (consistent : Consistent program run)
include consistent

theorem detach (detachable : run.Detachable m name) :
    (∀ (n : Nat) (pair : Pair), (run.session.detach m name).pairs[n]? = some pair →
      pair.Refers program run.session.interp.global_scope) ∧
    ∀ n, run.session.entry m name ≠ some (.accessor n) →
      (run.session.detach m name).pairs[n]? = run.session.pairs[n]? := by
  unfold Session.detach
  cases there : run.session.entry m name with
  | none => exact ⟨consistent.pairs, fun _ _ => rfl⟩
  | some entry =>
    cases entry with
    | value copy => exact ⟨consistent.pairs, fun _ _ => rfl⟩
    | accessor old =>
      constructor
      · intro n pair found
        obtain ⟨before, there', rfl⟩ := getElem?_onPair found
        have refers := consistent.pairs n before there'
        by_cases here : old = n
        · subst here
          rw [if_pos rfl]
          refine ⟨refers.scope, refers.name, fun kept => ?_⟩
          have getters := (detachable old before there there').resolve_left kept
          simp [Pair.alive, getters]
        · rw [if_neg here]
          exact refers
      · intro n other
        have here : old ≠ n := by
          rintro rfl
          exact other rfl
        simp [Session.uninstall, Session.onPair, here]

/-- Exporting a name under itself makes it live. -/
theorem lr_export_live_binding (top : run.TopLevel) (short : Run.Short name)
    (detachable : run.Detachable m name)
    (refers : ∀ binding, ExportedAs program m name binding →
      binding.2 = name ∧ ¬ Unbound program binding.1 binding.2) :
    Consistent program ⟨run.session.lr_export_live_binding m name, run.locals⟩ := by
  obtain ⟨interp, released, spaces, stale, length⟩ := detach_same run.session m name
  obtain ⟨pairs, others⟩ := consistent.detach detachable
  have fits : bindName name = labelBytes name := by
    apply take_of_length_le
    have size : (labelBytes name).length = name.utf8ByteSize := by
      simp [labelBytes]
    unfold Run.Short at short
    omega
  have entries : ∀ m' name', (run.session.lr_export_live_binding m name).entry m' name' =
      if m' = m ∧ name' = name then some (.accessor run.session.pairs.length)
      else run.session.entry m' name' := by
    intro m' name'
    unfold Session.lr_export_live_binding
    rw [entry_put]
    simp only [Session.entry, spaces]
  have kept : (run.session.detach m name).released
      (run.session.detach m name).interp.global_scope = false := by
    rw [interp, released]
    exact consistent.kept
  refine ⟨stale.trans consistent.calm, kept, ?_, ?_, ?_, ?_⟩
  · intro m' name' value inScope found
    change globalValue (run.session.detach m name).interp name' = _
    rw [interp]
    exact consistent.bound m' name' value inScope found
  · intro n pair found
    change ((run.session.detach m name).pairs ++ [_])[n]? = some pair at found
    change pair.Refers program (run.session.detach m name).interp.global_scope
    rw [interp]
    rw [getElem?_append] at found
    split at found
    · exact pairs n pair found
    · rw [getElem?_singleton] at found
      split at found
      · obtain rfl := some.inj found
        refine ⟨top, ?_, fun _ => rfl⟩
        intro binding exported
        obtain ⟨same, inScope⟩ := refers binding exported
        refine ⟨?_, inScope⟩
        rw [same]
        exact fits
      · cases found
  · intro m' name' n there
    change ∃ pair, ((run.session.detach m name).pairs ++ [_])[n]? = some pair ∧ _
    rw [entries] at there
    split at there
    · next here =>
        obtain ⟨rfl, rfl⟩ := here
        cases there
        let pair : Pair :=
          { scope := run.session.interp.chain, name := bindName name', module_ := m',
            exported := name', installed := true, getters := 0, setters := 0 }
        refine ⟨pair, ?_, rfl, rfl, rfl⟩
        rw [← length]
        exact getElem?_concat_length
    · next elsewhere =>
        obtain ⟨pair, found, installed, module_, exported⟩ := consistent.accessors m' name' n there
        refine ⟨pair, ?_, installed, module_, exported⟩
        have other : run.session.entry m name ≠ some (.accessor n) := by
          intro same
          obtain ⟨pair', found', -, module', exported'⟩ := consistent.accessors m name n same
          rw [found] at found'
          cases found'
          exact elsewhere ⟨module_.symm.trans module', exported.symm.trans exported'⟩
        have inside : n < (run.session.detach m name).pairs.length := by
          rw [length]
          exact (List.getElem?_eq_some_iff.mp found).1
        rw [getElem?_append_left inside, others n other]
        exact found
  · intro m' name' copy binding value there exported found
    rw [entries] at there
    split at there
    · cases there
    · exact consistent.copies m' name' copy binding value there exported found

theorem detachable_export {other : String} (detachable : run.Detachable m name)
    (detachable' : run.Detachable m other) :
    (Run.mk (run.session.lr_export_live_binding m name) run.locals).Detachable m other := by
  obtain ⟨-, -, spaces, -, length⟩ := detach_same run.session m name
  obtain ⟨-, others⟩ := consistent.detach detachable
  intro n pair there found
  change (Session.put { run.session.detach m name with pairs := _ } m name _).entry m other = _
    at there
  change ((run.session.detach m name).pairs ++ [_])[n]? = some pair at found
  rw [entry_put] at there
  split at there
  · cases there
    rw [← length, getElem?_concat_length] at found
    obtain rfl := some.inj found
    exact .inl rfl
  · next different =>
      have there' : run.session.entry m other = some (.accessor n) := by
        simpa only [Session.entry, spaces] using there
      obtain ⟨before, found', -, -, exported⟩ := consistent.accessors m other n there'
      have same : run.session.entry m name ≠ some (.accessor n) := by
        intro same
        obtain ⟨before', found'', -, -, exported'⟩ := consistent.accessors m name n same
        rw [found'] at found''
        cases found''
        exact different ⟨rfl, exported.symm.trans exported'⟩
      have inside : n < (run.session.detach m name).pairs.length := by
        rw [length]
        exact (List.getElem?_eq_some_iff.mp found').1
      rw [getElem?_append_left inside, others n same] at found
      exact detachable' n pair there' found

end

/-! ## Statements -/

theorem export_chain (s : Session V W) (m : Nat) (name : String) :
    (s.lr_export_live_binding m name).interp = s.interp :=
  (detach_same s m name).1

theorem export_all (names : List String) (m : Nat) {run : Run V W}
    (consistent : Consistent program run) (top : run.TopLevel)
    (each : ∀ name ∈ names, Run.Short name ∧ run.Detachable m name ∧
      ∀ binding, ExportedAs program m name binding →
        binding.2 = name ∧ ¬ Unbound program binding.1 binding.2) :
    Consistent program
      ⟨names.foldl (fun s name => s.lr_export_live_binding m name) run.session, run.locals⟩ := by
  induction names generalizing run with
  | nil => exact consistent
  | cons name names ih =>
    obtain ⟨short, detachable, refers⟩ := each name mem_cons_self
    have after := consistent.lr_export_live_binding top short detachable refers
    apply ih after
    · change (run.session.lr_export_live_binding m name).interp.chain = _
      rw [export_chain]
      exact top
    · intro other member
      obtain ⟨short', detachable', refers'⟩ := each other (mem_cons_of_mem _ member)
      exact ⟨short', consistent.detachable_export detachable detachable', refers'⟩

def Plain (specifier : Specifier) (name : String) : Prop :=
  specifier.name = .identifier name ∧
    (specifier.alias_ = none ∨ specifier.alias_ = some (.identifier name))

theorem Plain.exported {specifier : Specifier} (plain : Plain specifier name) :
    specifier.exported = name := by
  unfold Specifier.exported
  rcases plain with ⟨named, absent | same⟩
  · rw [named, absent]
    rfl
  · rw [same]
    rfl

theorem Plain.evalSpecifier (host : Host V W) {specifier : Specifier}
    (plain : Plain specifier name) (m : Nat) (s : Session V W) :
    s.evalSpecifier host m none specifier = s.lr_export_live_binding m name := by
  unfold Session.evalSpecifier
  rcases plain with ⟨named, absent | same⟩
  · rw [named, absent]
  · rw [named, same]

variable {values : List V}

/-- An export list keeps the exports live. -/
theorem evaluate_named (consistent : Consistent program run)
    {specifiers : List Specifier} (top : run.TopLevel)
    (statement : .named specifiers none ∈ program m)
    (evaluable : run.Evaluable program m (.named specifiers none) values) :
    Consistent program
      ⟨run.session.evaluate host m (.named specifiers none) values, run.locals⟩ := by
  have names : ∀ (rest : List Specifier) (s : Session V W),
      (∀ specifier ∈ rest, ∃ name, Plain specifier name) →
      rest.foldl (fun s specifier => s.evalSpecifier host m none specifier) s =
        (rest.map Specifier.exported).foldl
          (fun s name => s.lr_export_live_binding m name) s := by
    intro rest
    induction rest with
    | nil => exact fun _ _ => rfl
    | cons head rest ih =>
      intro s each
      obtain ⟨name, plain⟩ := each head mem_cons_self
      simp only [foldl_cons, map_cons, plain.evalSpecifier host, plain.exported]
      exact ih _ fun other member => each other (mem_cons_of_mem _ member)
  change Consistent program ⟨specifiers.foldl _ run.session, run.locals⟩
  rw [names]
  · apply export_all _ m consistent top
    intro exported member
    obtain ⟨specifier, there, rfl⟩ := mem_map.mp member
    obtain ⟨name, named, alias_, short, inScope, own, detachable⟩ := evaluable specifier there
    have plain : Plain specifier name := ⟨named, alias_⟩
    have exports : Exports program m name (m, name) := by
      have text : specifier.name.text = name := by
        rw [named]
        rfl
      have found := Exports.named statement there (by rw [text]; exact own)
      rw [plain.exported, text] at found
      exact found
    rw [plain.exported]
    refine ⟨short, detachable, fun binding unique => ?_⟩
    obtain rfl := unique.2 _ exports
    exact ⟨rfl, inScope⟩
  · intro specifier member
    obtain ⟨name, named, plain, -⟩ := evaluable specifier member
    exact ⟨name, named, plain⟩

theorem set_copy (noAccessor : ∀ n, s.entry m name ≠ some (.accessor n)) :
    s.set_property host m name value = s.put m name (.value value) := by
  unfold Session.set_property
  split
  · next n there => exact absurd there (noAccessor n)
  · rfl

variable {source : Nat}

theorem copy (consistent : Consistent program run) (host : Host V W)
    {exported : String} (noAccessor : run.NoAccessor m exported)
    (ready : run.Ready program source name)
    (exports : ∀ binding, Exports program source name binding →
      Exports program m exported binding) :
    let got := run.session.get_property host source name
    got.2.set_property host m exported got.1 = run.session.put m exported (.value got.1) ∧
      Consistent program ⟨run.session.put m exported (.value got.1), run.locals⟩ := by
  obtain ⟨same, reads⟩ := consistent.get_property host source name
  obtain ⟨present, binding, found, bound⟩ := ready
  obtain ⟨value, before⟩ := isSome_iff_exists.mp bound
  have got := reads binding value found before present
  dsimp only
  rw [same]
  refine ⟨set_copy noAccessor, consistent.put_value fun other value' unique after => ?_⟩
  obtain rfl := unique.2 binding (exports binding found.1)
  rw [before] at after
  rw [got]
  exact some.inj after

theorem noAccessor_put {m' : Nat} {name' : String} {copy : V} (noAccessor : run.NoAccessor m name) :
    (Run.mk (run.session.put m' name' (.value copy)) run.locals).NoAccessor m name := by
  intro n there
  rw [entry_put] at there
  split at there
  · cases there
  · exact noAccessor n there

theorem ready_put {name' : String} {copy : V} (ready : run.Ready program source name) :
    (Run.mk (run.session.put m name' (.value copy)) run.locals).Ready program source name := by
  refine ⟨?_, ready.2⟩
  rw [entry_put]
  split
  · rfl
  · exact ready.1

theorem copies_all {α : Type} (items : List α) (host : Host V W) (m source : Nat)
    (names : α → String × String) (copyItem : α → Session V W → Session V W)
    (copying : ∀ item ∈ items, ∀ s, copyItem item s =
      let got := s.get_property host source (names item).1
      got.2.set_property host m (names item).2 got.1)
    {run : Run V W} (consistent : Consistent program run)
    (each : ∀ item ∈ items, run.NoAccessor m (names item).2 ∧
      run.Ready program source (names item).1 ∧
      ∀ binding, Exports program source (names item).1 binding →
        Exports program m (names item).2 binding) :
    Consistent program
      ⟨items.foldl (fun s item => copyItem item s) run.session, run.locals⟩ := by
  induction items generalizing run with
  | nil => exact consistent
  | cons item items ih =>
    obtain ⟨noAccessor, ready, exports⟩ := each item mem_cons_self
    obtain ⟨set, after⟩ := consistent.copy host noAccessor ready exports
    rw [foldl_cons, copying item mem_cons_self]
    simp only [set]
    apply ih (fun other member => copying other (mem_cons_of_mem _ member)) after
    intro other member
    obtain ⟨noAccessor', ready', exports'⟩ := each other (mem_cons_of_mem _ member)
    exact ⟨noAccessor_put noAccessor', ready_put ready', exports'⟩

theorem evaluate_again (consistent : Consistent program run) {specifiers : List Specifier}
    (statement : .named specifiers (some source) ∈ program m)
    (evaluable : run.Evaluable program m (.named specifiers (some source)) values) :
    Consistent program
      ⟨run.session.evaluate host m (.named specifiers (some source)) values, run.locals⟩ := by
  refine copies_all specifiers host m source
    (fun specifier => (specifier.name.text, specifier.exported))
    (fun specifier s => s.evalSpecifier host m (some source) specifier) ?_ consistent ?_
  · intro specifier member s
    obtain ⟨name, named, alias_, -⟩ := evaluable specifier member
    unfold Session.evalSpecifier Specifier.exported
    rcases alias_ with absent | ⟨other, same⟩
    · rw [named, absent]
      rfl
    · rw [named, same]
      rfl
  · intro specifier member
    obtain ⟨name, named, -, noAccessor, ready⟩ := evaluable specifier member
    have text : specifier.name.text = name := by
      rw [named]
      rfl
    refine ⟨noAccessor, ?_, fun binding found => Exports.again statement member found⟩
    rw [text]
    exact ready

/-- `export *` keeps the exports live. -/
theorem evaluate_all (consistent : Consistent program run) (statement : .all source ∈ program m)
    (evaluable : run.Evaluable program m (.all source) values) :
    Consistent program ⟨run.session.evaluate host m (.all source) values, run.locals⟩ := by
  have skips : ∀ (names : List String) (s : Session V W),
      names.foldl (fun s name => s.evalStar host m source name) s =
        (names.filter (· ≠ "default")).foldl (fun s name => s.evalStar host m source name) s := by
    intro names
    induction names with
    | nil => exact fun _ => rfl
    | cons name names ih =>
      intro s
      by_cases skipped : name = "default"
      · have unchanged : s.evalStar host m source "default" = s := if_pos rfl
        rw [foldl_cons, skipped, unchanged, ih]
        simp
      · have kept : (name :: names).filter (· ≠ "default") =
            name :: names.filter (· ≠ "default") :=
          filter_cons_of_pos (by simpa using skipped)
        rw [foldl_cons, kept, foldl_cons]
        exact ih _
  change Consistent program ⟨foldl _ run.session _, run.locals⟩
  rw [skips]
  refine copies_all _ host m source (fun name => (name, name))
    (fun name s => s.evalStar host m source name) ?_ consistent ?_
  · intro name member s
    have other : name ≠ "default" := of_decide_eq_true (mem_filter.mp member).2
    exact if_neg other
  · intro name member
    obtain ⟨there, other⟩ := mem_filter.mp member
    have notDefault : name ≠ "default" := of_decide_eq_true other
    obtain ⟨notExplicit, noAccessor, ready⟩ := evaluable name there notDefault
    exact ⟨noAccessor, ready,
      fun binding found => Exports.all statement notDefault notExplicit found⟩

theorem function_scope_top (top : run.TopLevel) :
    run.session.interp.find_function_scope = run.session.interp.global_scope := by
  unfold State.find_function_scope
  rw [top]
  simp only [find?_cons, find?_nil]
  split <;> rfl

theorem declareAll (bound : List (String × V)) (host : Host V W) {kind : Nat} {run : Run V W}
    (consistent : Consistent program run) (top : run.TopLevel)
    (each : ∀ pair ∈ bound, run.Bindable program m pair.1) :
    Consistent program
        ⟨run.session.declareAll host kind bound, run.locals.bindAll m bound⟩ ∧
      Run.TopLevel ⟨run.session.declareAll host kind bound, run.locals.bindAll m bound⟩ := by
  induction bound generalizing run with
  | nil => exact ⟨consistent, top⟩
  | cons pair rest ih =>
    have bindable := each pair mem_cons_self
    have sets : Sets pair.1 pair.2 run.session.interp
        (Scopes.scope_declare_name host.values pair.1 pair.2 kind run.session.interp) :=
      declare_slot (function_scope_top top)
    have after := consistent.bind bindable sets
    have top' : Run.TopLevel
        ⟨run.session.declareAll host kind [pair], run.locals.bindAll m [pair]⟩ := by
      change (Scopes.scope_declare_name host.values pair.1 pair.2 kind
        run.session.interp).chain = [_]
      rw [sets.chain]
      exact top.trans (congrArg (fun address => [address]) sets.global_scope.symm)
    apply ih after top'
    intro other member
    obtain ⟨sole, noCopy, inScope⟩ := each other (mem_cons_of_mem _ member)
    refine ⟨?_, noCopy, inScope⟩
    rintro m' different ⟨owned, outer⟩
    have elsewhere : (m', other.1) ≠ (m, pair.1) := fun same => different (congrArg Prod.fst same)
    change (update run.locals (m, pair.1) (some pair.2) (m', other.1)).isSome = true
      at owned
    rw [update_of_ne elsewhere] at owned
    exact sole m' different ⟨owned, outer⟩

section

variable (consistent : Consistent program run)
include consistent

theorem evaluate_declaration {kind : Nat} {names : List String} (top : run.TopLevel)
    (statement : .declaration kind names ∈ program m)
    (evaluable : run.Evaluable program m (.declaration kind names) values) :
    Consistent program
      ⟨run.session.evaluate host m (.declaration kind names) values,
        run.locals.bindAll m (names.zip values)⟩ := by
  obtain ⟨sizes, each⟩ := evaluable
  have bindable : ∀ pair ∈ names.zip values, run.Bindable program m pair.1 := by
    intro pair member
    exact (each pair.1 (of_mem_zip member).1).1
  obtain ⟨after, top'⟩ := declareAll (names.zip values) host consistent top bindable
  refine export_all names m after top' fun name member => ?_
  obtain ⟨⟨-, -, inScope⟩, short, detachable⟩ := each name member
  refine ⟨short, detachable, fun binding unique => ?_⟩
  obtain rfl := unique.2 _ (Exports.declaration statement member)
  exact ⟨rfl, inScope⟩

theorem bindUnbound (value : V) (unbound : Unbound program m name)
    (noCopy : run.NoCopy program (m, name)) :
    Consistent program ⟨run.session, Function.update run.locals (m, name) (some value)⟩ where
  calm := consistent.calm
  kept := consistent.kept
  bound m' name' value' inScope found := by
    have other : (m', name') ≠ (m, name) := by
      intro same
      cases same
      exact inScope unbound
    exact consistent.bound m' name' value' inScope
      ((update_of_ne other (some value) run.locals).symm.trans found)
  pairs := consistent.pairs
  accessors := consistent.accessors
  copies m' name' copy binding value' there exported found := by
    have other : binding ≠ (m, name) := by
      rintro rfl
      exact noCopy m' name' copy there exported
    exact consistent.copies m' name' copy binding value' there exported
      ((update_of_ne other (some value) run.locals).symm.trans found)

theorem put_default {form : DefaultForm} (statement : .default form ∈ program m)
    (noAccessor : run.NoAccessor m "default") (found : run.locals (m, form.binding) = some value) :
    Consistent program ⟨run.session.set_property host m "default" value, run.locals⟩ := by
  rw [set_copy noAccessor]
  refine consistent.put_value fun binding value' unique after => ?_
  obtain rfl := unique.2 _ (Exports.default statement)
  rw [found] at after
  exact some.inj after

theorem evaluate_default {form : DefaultForm} (top : run.TopLevel)
    (statement : .default form ∈ program m)
    (evaluable : run.Evaluable program m (.default form) values) :
    Consistent program
      ⟨run.session.evaluate host m (.default form) values,
        run.locals.bindAll m [(form.binding, values.headD host.undefined)]⟩ := by
  have bound : (run.locals.bindAll m [(form.binding, values.headD host.undefined)])
      (m, form.binding) = some (values.headD host.undefined) :=
    update_self ..
  cases form with
  | expression =>
    obtain ⟨noAccessor, noCopy⟩ := evaluable
    have after := consistent.bindUnbound (values.headD host.undefined)
      (.inr ⟨rfl, statement⟩) noCopy
    exact after.put_default statement noAccessor bound
  | function name =>
    obtain ⟨noAccessor, noCopy⟩ := evaluable
    have after := consistent.bindUnbound (values.headD host.undefined) (.inl statement) noCopy
    exact after.put_default statement noAccessor bound
  | class_ name =>
    obtain ⟨noAccessor, bindable⟩ := evaluable
    have sets : Sets name (values.headD host.undefined) run.session.interp
        (Scopes.scope_declare_name host.values name (values.headD host.undefined) 1
          run.session.interp) :=
      declare_slot (function_scope_top top)
    exact (consistent.bind bindable sets).put_default statement noAccessor bound

/-- An import at the top level copies what its source exports. -/
theorem evalImport (host : Host V W) {names : String × String} (top : run.TopLevel)
    (ready : run.Ready program source names.1)
    (apart : run.Unowned program names.2 ∨ ∃ binding, ExportedAs program source names.1 binding ∧
      binding.2 = names.2 ∧ ¬ Unbound program binding.1 binding.2 ∧
      ∀ other, other ≠ binding.1 → ¬ run.Owns program other binding.2) :
    Consistent program ⟨run.session.evalImport host source names, run.locals⟩ ∧
      Run.TopLevel ⟨run.session.evalImport host source names, run.locals⟩ := by
  obtain ⟨same, reads⟩ := consistent.get_property host source names.1
  have sets : Sets names.2 (run.session.get_property host source names.1).1 run.session.interp
      (Scopes.scope_declare_name host.values names.2
        (run.session.get_property host source names.1).1 1 run.session.interp) :=
    declare_slot (function_scope_top top)
  have keeps : Keeps (fun name => ∃ m, run.Owns program m name) run.session.interp
      (Scopes.scope_declare_name host.values names.2
        (run.session.get_property host source names.1).1 1 run.session.interp) := by
    refine ⟨sets.global_scope, ?_⟩
    rintro name ⟨m, owned, inScope⟩
    by_cases here : name = names.2
    · subst here
      obtain ⟨binding, unique, local_, -, sole⟩ := apart.resolve_left
        fun unowned => unowned m ⟨owned, inScope⟩
      have owner : m = binding.1 := by
        by_contra other
        rw [local_] at sole
        exact sole m other ⟨owned, inScope⟩
      obtain ⟨value, found⟩ := isSome_iff_exists.mp owned
      have own : binding = (m, names.2) := by
        rw [owner, ← local_]
      rw [own] at unique
      rw [sets.own, reads (m, names.2) value unique found ready.1]
      exact (consistent.bound m names.2 value inScope found).symm
    · exact sets.others name here
  have imported : run.session.evalImport host source names =
      { run.session with
        interp := Scopes.scope_declare_name host.values names.2
          (run.session.get_property host source names.1).1 1 run.session.interp } := by
    simp only [Session.evalImport, same]
    rfl
  rw [imported]
  refine ⟨consistent.keep keeps, ?_⟩
  change (Scopes.scope_declare_name host.values names.2 _ 1 run.session.interp).chain = [_]
  rw [sets.chain]
  exact top.trans (congrArg (fun address => [address]) sets.global_scope.symm)

end

theorem evaluate_import (specifiers : List (String × String))
    (host : Host V W) {run : Run V W} (consistent : Consistent program run)
    (top : run.TopLevel)
    (each : ∀ names ∈ specifiers, run.Ready program source names.1 ∧
      (run.Unowned program names.2 ∨ ∃ binding, ExportedAs program source names.1 binding ∧
        binding.2 = names.2 ∧ ¬ Unbound program binding.1 binding.2 ∧
        ∀ other, other ≠ binding.1 → ¬ run.Owns program other binding.2)) :
    Consistent program
      ⟨specifiers.foldl (fun s names => s.evalImport host source names) run.session,
        run.locals⟩ := by
  induction specifiers generalizing run with
  | nil => exact consistent
  | cons names rest ih =>
    obtain ⟨ready, apart⟩ := each names mem_cons_self
    obtain ⟨after, top'⟩ := consistent.evalImport host top ready apart
    apply ih after top'
    intro other member
    obtain ⟨ready', apart'⟩ := each other (mem_cons_of_mem _ member)
    refine ⟨⟨?_, ready'.2⟩, apart'⟩
    have spaces : (run.session.evalImport host source names).spaces = run.session.spaces := by
      simp only [Session.evalImport, (consistent.get_property host source names.1).1]
      rfl
    change ((run.session.evalImport host source names).spaces source).lookup other.1 |>.isSome
    rw [spaces]
    exact ready'.1

section

variable (consistent : Consistent program run)
include consistent

theorem evaluate {statement : Statement} (top : run.TopLevel) (there : statement ∈ program m)
    (evaluable : run.Evaluable program m statement values) :
    Consistent program (run.step program host (.evaluate m statement values)) := by
  cases statement with
  | default form => exact consistent.evaluate_default top there evaluable
  | named specifiers source =>
    cases source with
    | none => exact consistent.evaluate_named top there evaluable
    | some source => exact consistent.evaluate_again there evaluable
  | all source => exact consistent.evaluate_all there evaluable
  | declaration kind names => exact consistent.evaluate_declaration top there evaluable
  | import_ source specifiers => exact evaluate_import specifiers host consistent top evaluable

/-! ## Steps and runs -/

theorem release {address : Nat} (other : address ≠ run.session.interp.global_scope) :
    Consistent program (run.step program host (.release address)) where
  calm := consistent.calm
  kept := by
    change update run.session.released address true
      run.session.interp.global_scope = false
    rw [update_of_ne other.symm]
    exact consistent.kept
  bound := consistent.bound
  pairs := consistent.pairs
  accessors := consistent.accessors
  copies := consistent.copies

theorem enter {address : Nat} {scope : Scope V}
    (other : address ≠ run.session.interp.global_scope) :
    Consistent program (run.step program host (.enter address scope)) where
  calm := consistent.calm
  kept := by
    change update run.session.released address false
      run.session.interp.global_scope = false
    rw [update_of_ne other.symm]
    exact consistent.kept
  bound m name value inScope found := by
    have slot := consistent.bound m name value inScope found
    have scopes : (run.step program host (.enter address scope)).session.interp.scopes
        run.session.interp.global_scope =
          run.session.interp.scopes run.session.interp.global_scope := by
      change update run.session.interp.scopes address scope
        run.session.interp.global_scope = _
      rw [update_of_ne other.symm]
    change (((run.step program host (.enter address scope)).session.interp.scopes
      run.session.interp.global_scope).find name).bind _ = _
    rw [scopes, ← slot]
    refine congrArg (Option.bind _) (funext fun i => ?_)
    change ((run.step program host (.enter address scope)).session.interp.scopes
      run.session.interp.global_scope).bindings[i]?.map _ = _
    rw [scopes]
  pairs := consistent.pairs
  accessors := consistent.accessors
  copies := consistent.copies

/-- A change of a pair's handles keeps the exports live. -/
theorem onPair {i : Nat} {f : Pair → Pair}
    (same : ∀ pair, (f pair).scope = pair.scope ∧ (f pair).name = pair.name ∧
      (f pair).module_ = pair.module_ ∧ (f pair).exported = pair.exported ∧
      (f pair).installed = pair.installed)
    (alive : ∀ pair, run.session.pairs[i]? = some pair →
      pair.Refers program run.session.interp.global_scope →
        (f pair).setters ≠ 0 → (f pair).alive = true) :
    Consistent program ⟨run.session.onPair i f, run.locals⟩ where
  calm := consistent.calm
  kept := consistent.kept
  bound := consistent.bound
  pairs n pair found := by
    obtain ⟨before, there, rfl⟩ := Consistent.getElem?_onPair found
    have refers := consistent.pairs n before there
    split
    · next here =>
        obtain ⟨scope, name, module_, exported, -⟩ := same before
        refine ⟨scope.trans refers.scope, ?_, ?_⟩
        · rw [name, module_, exported]
          exact refers.name
        · rw [← here] at there
          exact alive before there refers
    · exact refers
  accessors m name n there := by
    obtain ⟨pair, found, installed, module_, exported⟩ := consistent.accessors m name n there
    refine ⟨if i = n then f pair else pair, ?_, ?_⟩
    · change (run.session.pairs.modify i f)[n]? = _
      rw [getElem?_modify, found]
      rfl
    · split
      · obtain ⟨-, -, module', exported', installed'⟩ := same pair
        exact ⟨installed'.trans installed, module'.trans module_, exported'.trans exported⟩
      · exact ⟨installed, module_, exported⟩
  copies := consistent.copies

end

theorem lookup_filter {other : String} :
    (properties.filter fun property => property.1 != name).lookup other =
      if other = name then none else properties.lookup other := by
  induction properties with
  | nil => simp
  | cons head tail ih =>
    obtain ⟨found, old⟩ := head
    by_cases there : found = name
    · have dropped : ¬ (found != name) = true := by simp [there]
      rw [filter_cons, if_neg dropped, ih]
      by_cases same : other = name
      · simp [same]
      · simp only [same, if_false, lookup_cons, there, beq_eq_false_iff_ne.mpr same]
    · have kept : (found != name) = true := by simp [there]
      rw [filter_cons, if_pos kept]
      by_cases same : other = found
      · simp [same, there]
      · simp only [lookup_cons, beq_eq_false_iff_ne.mpr same, ih]

/-- Deleting a property of a namespace leaves the others live. -/
theorem erase (consistent : Consistent program run) (detachable : run.Detachable m name) :
    Consistent program (run.step program host (.delete m name)) := by
  obtain ⟨interp, released, spaces, stale, -⟩ := detach_same run.session m name
  obtain ⟨pairs, others⟩ := consistent.detach detachable
  have entries : ∀ m' name', (run.session.erase m name).entry m' name' =
      if m' = m ∧ name' = name then none else run.session.entry m' name' := by
    intro m' name'
    unfold Session.erase Session.entry
    by_cases here : m' = m
    · subst here
      simp [lookup_filter]
    · simp [here]
  have kept : (run.session.detach m name).released
      (run.session.detach m name).interp.global_scope = false := by
    rw [interp, released]
    exact consistent.kept
  refine ⟨stale.trans consistent.calm, kept, ?_, ?_, ?_, ?_⟩
  · intro m' name' value inScope found
    change globalValue (run.session.detach m name).interp name' = _
    rw [interp]
    exact consistent.bound m' name' value inScope found
  · intro n pair found
    change pair.Refers program (run.session.detach m name).interp.global_scope
    rw [interp]
    exact pairs n pair found
  · intro m' name' n there
    change (run.session.erase m name).entry m' name' = _ at there
    rw [entries] at there
    split at there
    · cases there
    · next elsewhere =>
        obtain ⟨pair, found, installed, module_, exported⟩ := consistent.accessors m' name' n there
        refine ⟨pair, ?_, installed, module_, exported⟩
        refine (others n ?_).trans found
        intro same
        obtain ⟨pair', found', -, module', exported'⟩ := consistent.accessors m name n same
        rw [found] at found'
        cases found'
        exact elsewhere ⟨module_.symm.trans module', exported.symm.trans exported'⟩
  · intro m' name' copy binding value there exported found
    change (run.session.erase m name).entry m' name' = _ at there
    rw [entries] at there
    split at there
    · cases there
    · exact consistent.copies m' name' copy binding value there exported found

/-- Every step that meets the condition keeps the exports live. -/
theorem step (consistent : Consistent program run) {action : Action V}
    (meets : run.Meets program action) : Consistent program (run.step program host action) := by
  cases action with
  | declare m name value kind =>
    obtain ⟨top, bindable⟩ := meets
    exact consistent.bind bindable (declare_slot (function_scope_top top))
  | assign m name value =>
    obtain ⟨⟨i, found, plain⟩, bindable⟩ := meets
    exact consistent.bind bindable (assign_slot found plain)
  | assignSlot m name slot value =>
    obtain ⟨⟨current, found, -⟩, bindable⟩ := meets
    exact consistent.bind bindable (store_slot current found)
  | bind name value kind =>
    refine consistent.keep (declare_keeps ?_)
    exact meets.imp id fun unowned owned => owned.elim unowned
  | assignInner name value =>
    refine consistent.keep (assign_keeps ?_)
    exact meets.imp id fun unowned owned => owned.elim unowned
  | assignInnerSlot slot value =>
    refine consistent.keep (store_keeps ?_)
    exact fun current name found owned => owned.elim (meets current name found)
  | enter address scope => exact consistent.enter meets
  | leave =>
    refine consistent.keep (pop_keeps host run.session.interp ?_)
    intro popped parents chain shadow member own
    exact (meets popped parents chain shadow member own).imp id
      fun unowned owned => owned.elim unowned
  | release address => exact consistent.release meets
  | evaluate m statement values =>
    obtain ⟨top, there, evaluable⟩ := meets
    exact consistent.evaluate top there evaluable
  | read m name =>
    change Consistent program ⟨(run.session.get_property host m name).2, run.locals⟩
    rw [(consistent.get_property host m name).1]
    exact consistent
  | write m name value =>
    obtain ⟨⟨n, there⟩, writable⟩ := meets
    obtain ⟨pair, found, installed, rfl, rfl⟩ := consistent.accessors m name n there
    have alive : pair.alive = true := by
      unfold Pair.alive
      rw [installed, Bool.true_or]
    have set : run.session.set_property host pair.module_ pair.exported value =
        run.session.live_bind_setter host n value := by
      unfold Session.set_property
      rw [there]
    change Consistent program ⟨run.session.set_property host _ _ value, _⟩
    rw [set]
    exact consistent.live_bind_setter value found alive writable
  | delete m name => exact consistent.erase meets
  | descriptor m name =>
    change Consistent program ⟨Session.step host run.session (.descriptor m name), run.locals⟩
    simp only [Session.step]
    split
    · refine consistent.onPair (fun pair => ⟨rfl, rfl, rfl, rfl, rfl⟩) fun pair _ _ _ => ?_
      simp [Pair.alive]
    · exact consistent
  | dropGetter n =>
    refine consistent.onPair (fun pair => ⟨rfl, rfl, rfl, rfl, rfl⟩) ?_
    intro pair found refers kept
    rcases meets pair found with none | installed | several
    · exact absurd none kept
    · simp [Pair.alive, installed]
    · have left : pair.getters - 1 ≠ 0 := by omega
      simp [Pair.alive, left]
  | dropSetter n =>
    refine consistent.onPair (fun pair => ⟨rfl, rfl, rfl, rfl, rfl⟩) ?_
    intro pair found refers kept
    refine refers.alive ?_
    intro zero
    exact kept (by simp [zero])
  | callGetter n =>
    change Consistent program ⟨Session.step host run.session (.callGetter n), run.locals⟩
    simp only [Session.step]
    split
    · next pair found =>
        split
        · exact consistent
        · next held =>
            have refers := consistent.pairs n pair found
            have alive : pair.alive = true := by simp [Pair.alive, held]
            simp only [Session.live_bind_getter, found]
            rw [Session.touch_eq alive refers.scope consistent.kept]
            exact consistent
    · exact consistent
  | callSetter n value =>
    change Consistent program ⟨Session.step host run.session (.callSetter n value),
      run.localsAfter program host (.callSetter n value)⟩
    cases found : run.session.pairs[n]? with
    | none =>
      simp only [Session.step, Run.localsAfter, found]
      exact consistent
    | some pair =>
      simp only [Session.step, Run.localsAfter, found]
      by_cases none_ : pair.setters = 0
      · rw [if_pos none_, if_pos none_]
        exact consistent
      · rw [if_neg none_, if_neg none_]
        have refers := consistent.pairs n pair found
        exact consistent.live_bind_setter value found (refers.alive none_)
          (meets pair found none_)

theorem after (actions : List (Action V)) (consistent : Consistent program run)
    (meets : run.AllMeet program host actions) :
    Consistent program (run.after program host actions) := by
  induction actions generalizing run with
  | nil => exact consistent
  | cons action actions ih => exact ih (consistent.step meets.1) meets.2

end Consistent

/-- In every run whose steps meet their conditions the exports are live. -/
theorem exports_stay_live (program : Program) (host : Host V W) (interp : State V W)
    (actions : List (Action V)) (meets : (Run.start interp).AllMeet program host actions) :
    Live program host ((Run.start interp).after program host actions) :=
  (Consistent.after actions Consistent.start meets).live

/-! ## Two modules -/

def Host.numbers : Host Nat Unit where
  undefined := 0
  dup _ w := w
  free _ w := w
  mirror _ _ w := w

def emptyGlobal : State Nat Unit where
  chain := [0]
  global_scope := 0
  scopes _ := ⟨false, true, false, []⟩
  shadow_restore_head := []
  error_flag := false
  world := ()

/-- `export let x = 1`. -/
def declaring : Program
  | 0 => [.declaration 1 ["x"]]
  | _ => []

theorem exports_stay_live_declaring :
    Live declaring Host.numbers ((Run.start emptyGlobal).after declaring Host.numbers
      [.evaluate 0 (.declaration 1 ["x"]) [1]]) := by
  refine exports_stay_live declaring Host.numbers emptyGlobal _ ⟨⟨rfl, ?_, rfl, ?_⟩, trivial⟩
  · exact mem_cons_self
  · intro name member
    obtain rfl := mem_singleton.mp member
    refine ⟨⟨?_, ?_, ?_⟩, (by decide : "x".utf8ByteSize < 256), ?_⟩
    · rintro other - ⟨owned, -⟩
      cases owned
    · intro m name value there
      cases there
    · rintro (statement | ⟨-, statement⟩)
      · cases mem_singleton.mp statement
      · cases mem_singleton.mp statement
    · intro n pair there
      cases there

/-- `export { x as y }`. -/
def aliasing : Program
  | 0 => [.named [⟨.identifier "x", some (.identifier "y")⟩] none]
  | _ => []

theorem alias_exported : ExportedAs aliasing 0 "y" (0, "x") := by
  have notImported : ¬ Imported aliasing 0 "x" := by
    rintro ⟨source, specifiers, exported, statement, -⟩
    cases mem_singleton.mp statement
  have exports : Exports aliasing 0
      (Specifier.exported ⟨.identifier "x", some (.identifier "y")⟩) (0, "x") :=
    .named mem_cons_self mem_cons_self notImported
  refine ⟨exports, fun other exports => ?_⟩
  generalize same : "y" = name at exports
  cases exports with
  | default statement | declaration statement member => cases mem_singleton.mp statement
  | named statement member own =>
    cases mem_singleton.mp statement
    cases mem_singleton.mp member
    rfl
  | imported statement member imported local_ found => cases mem_singleton.mp imported
  | again statement member found | all statement notDefault notExplicit found =>
    cases mem_singleton.mp statement

/-- After `let x = 1` the property `y` is not 1. -/
theorem alias_reads_undefined :
    ¬ Live aliasing Host.numbers ((Run.start emptyGlobal).after aliasing Host.numbers
      [.declare 0 "x" 1 1,
        .evaluate 0 (.named [⟨.identifier "x", some (.identifier "y")⟩] none) []]) := by
  intro live
  have reads := live.reads 0 "y" (0, "x") 1 alias_exported rfl rfl
  cases reads

end Modules
end LRJS
