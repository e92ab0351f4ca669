import LRJS.Destructuring

/-!
# Patterns and the sequences they stand for

`eval_pattern` is the sequence of single declarations or assignments where every part of the
pattern has a branch, binding in the function scope is what the declaration or assignment does,
and no error is raised on the way.
-/

namespace LRJS
namespace Destructuring

open Scopes

variable {V W E : Type} {host : Host V W E} {mode : Mode}

/-- Declaring with kind 0 is what is meant: a `let` or `const` neither shadows the binding in a
block nor is kept from the global object, and an assigned name is bound in the function scope or not
at all. -/
def Mode.Fits (name : String) (s : State V W) : Mode → Prop
  | .declare kind =>
    kind = 0 ∨
      match (s.scopes s.find_function_scope).find name with
      | some i =>
        s.saves kind s.find_function_scope = false ∧
          ((s.scopes s.find_function_scope).mirrors = false ∨
            isLexicalAt s.find_function_scope i s = true)
      | none => (s.scopes s.find_function_scope).mirrors = false
  | .assign =>
    match s.lookup name with
    | some (address, i) => address = s.find_function_scope ∨ isConstAt address i s = true
    | none => True

theorem saves_var (s : State V W) (address : Nat) : s.saves 0 address = false := by
  unfold State.saves
  cases s.chain with
  | nil | cons current parents => rfl

theorem isLexicalAt_overwrite (values : Values V W) (address i : Nat) (value : V) (s : State V W) :
    isLexicalAt address i (overwrite values address i value s) = isLexicalAt address i s := by
  unfold overwrite
  cases at_i : (s.scopes address).bindings[i]? with
  | none => rfl
  | some binding =>
    have inside := (List.getElem?_eq_some_iff.mp at_i).1
    simp only [isLexicalAt, State.putBindings, Function.update_self, at_i,
      List.getElem?_set_self inside, Option.map_some]

variable {s : State V W}

theorem calm_eq (calm : s.error_flag = false) : { s with error_flag := false } = s := by
  rw [← calm]

variable (name : String) (value : V)

/-- Where the name fits, the kind of its declaration does not matter. -/
theorem declare_fits {kind : Nat} (fits : (Mode.declare kind).Fits name s) :
    scope_declare_name host.toValues name value 0 s =
      scope_declare_name host.toValues name value kind s := by
  rcases fits with var | fits
  · rw [var]
  cases found : (s.scopes s.find_function_scope).find name with
  | none =>
    simp only [found] at fits
    simp [scope_declare_name, found, fits]
  | some i =>
    simp only [found] at fits
    have silent : ((s.scopes s.find_function_scope).mirrors &&
        !isLexicalAt s.find_function_scope i
          (overwrite host.toValues s.find_function_scope i value s)) = false := by
      rw [isLexicalAt_overwrite]
      rcases fits.2 with plain | lexical
      · rw [plain, Bool.false_and]
      · rw [lexical, Bool.not_true, Bool.and_false]
    simp only [scope_declare_name, found, saves_var, fits.1, Bool.and_assoc, silent,
      Bool.and_false]

/-- Where the name is bound, declaring it is assigning it. -/
theorem assign_fits (calm : s.error_flag = false) (fits : Mode.assign.Fits name s) :
    scope_declare_name host.toValues name value 0 s =
      assign_identifier host.toValues name value s := by
  cases found : s.lookup name with
  | none => simp only [assign_identifier, scope_set_name, found, calm_eq calm]
  | some place =>
    simp only [Mode.Fits, found] at fits
    by_cases const : isConstAt place.1 place.2 s = true
    · simp only [assign_identifier, scope_set_name, found, if_pos const, calm_eq calm]
    · have address : place.1 = s.find_function_scope := fits.resolve_right const
      have here := find_of_lookup found
      rw [address] at here
      simp only [assign_identifier, scope_set_name, found, if_neg const]
      simp only [scope_declare_name, here, saves_var, address, decide_true, Bool.true_and]
      split
      · rfl
      · rfl

theorem bind_eq {s : State V W} (calm : s.error_flag = false) (fits : mode.Fits name s) :
    scope_declare_name host.toValues name value 0 s = mode.bind host name value s := by
  cases mode with
  | declare kind => exact declare_fits name value fits
  | assign => exact assign_fits name value calm fits

def Host.Uncounted (host : Host V W E) (value : V) : Prop :=
  ∀ w, host.free value w = w

section Conditions

variable (host)

def ElementsCopied (value rest_arr : V) : List Nat → Nat → State V W → Prop
  | [], _, _ => True
  | j :: js, idx, s =>
    let (item, s) := host.lr_get_property value (toString j) s
    let s := host.lr_set_property rest_arr (toString idx) item s
    host.Uncounted item ∧ s.error_flag = false ∧ ElementsCopied value rest_arr js (idx + 1) s

def PropertiesCopied (value rest_obj : V) : List String → State V W → Prop
  | [], _ => True
  | name :: names, s =>
    let (item, s) := host.lr_get_property value name s
    let s := host.lr_set_property rest_obj name item s
    host.Uncounted item ∧ s.error_flag = false ∧ PropertiesCopied value rest_obj names s

def ArrayCopied (value : V) (i : Nat) (s : State V W) : Prop :=
  let (rest_arr, s) := host.lr_new_array s
  let (len_val, s) := host.lr_get_property value "length" s
  let (len, s) := host.lr_to_int32 len_val s
  ElementsCopied host value rest_arr (List.range' i (len.toNat - i)) 0 (host.release len_val s)

def ObjectCopied (value : V) (consumed : List String) (s : State V W) : Prop :=
  let (rest_obj, s) := host.lr_new_object s
  let (names, s) := host.lr_get_own_property_names value s
  PropertiesCopied host value rest_obj (names.filter fun name => !consumed.contains name) s

end Conditions

variable {value : V}

theorem release_uncounted (uncounted : host.Uncounted value) (s : State V W) :
    host.release value s = s := by
  unfold Host.release
  rw [uncounted]

theorem copyElements_plain {rest_arr : V} {js : List Nat} {idx : Nat}
    (copied : ElementsCopied host value rest_arr js idx s) :
    copyElements host host.copying value rest_arr js idx s =
      copyElements host plainCopying value rest_arr js idx s := by
  induction js generalizing idx s with
  | nil => rfl
  | cons j js ih =>
    obtain ⟨uncounted, calm, copied⟩ := copied
    simp only [copyElements, Host.copying, plainCopying, release_uncounted uncounted, calm,
      Bool.and_false, Bool.false_eq_true, if_false]
    exact ih copied

theorem copyProperties_plain {rest_obj : V} {names : List String}
    (copied : PropertiesCopied host value rest_obj names s) :
    copyProperties host host.copying value rest_obj names s =
      copyProperties host plainCopying value rest_obj names s := by
  induction names generalizing s with
  | nil => rfl
  | cons name names ih =>
    obtain ⟨uncounted, calm, copied⟩ := copied
    simp only [copyProperties, Host.copying, plainCopying, release_uncounted uncounted, calm,
      Bool.and_false, Bool.false_eq_true, if_false]
    exact ih copied

theorem restArray_plain {i : Nat} (copied : ArrayCopied host value i s) :
    restArray host host.copying value i s = restArray host plainCopying value i s := by
  simp only [restArray, copyElements_plain copied]

theorem restObject_plain {consumed : List String} (copied : ObjectCopied host value consumed s) :
    restObject host host.copying value consumed s =
      restObject host plainCopying value consumed s := by
  simp only [restObject, copyProperties_plain copied]

section Conditions

variable (host)

/-- An element is read, and its default evaluated, without an error, and its target fits
afterwards. -/
def ItemFits (default : Option (Default E)) (fits : V → State V W → Prop) (item : V)
    (s : State V W) : Prop :=
  s.error_flag = false ∧ (withDefault host default item s).2.error_flag = false ∧
    fits (withDefault host default item s).1 (withDefault host default item s).2

def plainItem (mode : Mode) (target : Target E) (default : Option (Default E)) (item : V)
    (s : State V W) : State V W :=
  host.release (withDefault host default item s).1
    (sequence host mode target (withDefault host default item s).1
      (withDefault host default item s).2)

def Target.mayDefault (target : Target E) (default : Option (Default E)) : Bool :=
  match target, default with
  | .identifier _, _ | _, none => true
  | _, some _ => false

mutual
/-- Every part of the pattern has a branch in `eval_pattern` and binds as it should, without an
error. -/
def Fits (mode : Mode) : Target E → V → State V W → Prop
  | .identifier name, _, s => mode.Fits name s
  | .member _, _, _ => False
  | .array elements, value, s => ElementsFit mode value elements 0 s
  | .object props, value, s => PropsFit mode value props [] s

def ElementsFit (mode : Mode) (value : V) : Elements E → Nat → State V W → Prop
  | .nil, _, _ => True
  | .hole elements, i, s => ElementsFit mode value elements (i + 1) s
  | .rest (.identifier name), i, s =>
    ArrayCopied host value i s ∧
      (restArray host plainCopying value i s).2.error_flag = false ∧
      mode.Fits name (restArray host plainCopying value i s).2
  | .rest _, _, _ => False
  | .elem target default elements, i, s =>
    let read := host.lr_get_property value (toString i) s
    let bound := plainItem host mode target default read.1 read.2
    target.mayDefault default = true ∧
      ItemFits host default (Fits mode target) read.1 read.2 ∧
      (bound.error_flag = false ∨ elements = .nil) ∧
      ElementsFit mode value elements (i + 1) bound

def PropsFit (mode : Mode) (value : V) : Props E → List String → State V W → Prop
  | .nil, _, _ => True
  | .rest (.identifier name), consumed, s =>
    ObjectCopied host value consumed s ∧
      (restObject host plainCopying value consumed s).2.error_flag = false ∧
      mode.Fits name (restObject host plainCopying value consumed s).2
  | .rest _, _, _ => False
  | .prop (.name name) target default props, consumed, s =>
    let read := host.lr_get_property value name s
    let bound := plainItem host mode target default read.1 read.2
    target.mayDefault default = true ∧
      ItemFits host default (Fits mode target) read.1 read.2 ∧
      (bound.error_flag = false ∨ props = .nil) ∧
      PropsFit mode value props (consumed ++ [name]) bound
  | .prop _ _ _ _, _, _ => False
end

end Conditions

/-- What `eval_pattern` does with one value that it has read. -/
def bindItem (host : Host V W E) (target : Target E) (default : Option (Default E)) (item : V)
    (s : State V W) : State V W :=
  let (item, s) := withDefault host default item s
  host.release item (eval_pattern host target item s)

variable {target : Target E} {default : Option (Default E)}

theorem eval_elements_elem (value : V) (elements : Elements E) (i : Nat) (s : State V W)
    (may : target.mayDefault default = true)
    (no_member : ∀ expression, target ≠ .member expression) :
    eval_elements host value (.elem target default elements) i s =
      eval_elements host value elements (i + 1)
        (bindItem host target default (host.lr_get_property value (toString i) s).1
          (host.lr_get_property value (toString i) s).2) := by
  cases target with
  | identifier name => rfl
  | member expression => exact (no_member expression rfl).elim
  | array inner | object inner =>
    cases default with
    | none => rfl
    | some default => cases may

theorem eval_props_prop (value : V)
    (name : String) (props : Props E) (consumed : List String) (s : State V W)
    (may : target.mayDefault default = true)
    (no_member : ∀ expression, target ≠ .member expression) :
    eval_props host value (.prop (.name name) target default props) consumed s =
      eval_props host value props (consumed ++ [name])
        (bindItem host target default (host.lr_get_property value name s).1
          (host.lr_get_property value name s).2) := by
  cases target with
  | identifier name => rfl
  | member expression => exact (no_member expression rfl).elim
  | array inner | object inner =>
    cases default with
    | none => rfl
    | some default => cases may

theorem no_member_of_fits
    (fits : Fits host mode target value s) (expression : E) : target ≠ .member expression := by
  intro member
  rw [member] at fits
  exact fits

theorem bindItem_sequence {item : V} (fits : ItemFits host default (Fits host mode target) item s)
    (same : ∀ item s, s.error_flag = false → Fits host mode target item s →
      eval_pattern host target item s = sequence host mode target item s) :
    bindItem host target default item s = plainItem host mode target default item s := by
  obtain ⟨_, calm, fits⟩ := fits
  unfold plainItem
  rw [← same _ _ calm fits]
  rfl

theorem sequenceElements_elem (elements : Elements E) {i : Nat}
    (fits : ItemFits host default (Fits host mode target)
      (host.lr_get_property value (toString i) s).1
      (host.lr_get_property value (toString i) s).2) :
    sequenceElements host mode value (.elem target default elements) i s =
      unlessError (sequenceElements host mode value elements (i + 1))
        (plainItem host mode target default (host.lr_get_property value (toString i) s).1
          (host.lr_get_property value (toString i) s).2) := by
  simp only [sequenceElements, fits.1, fits.2.1, unlessError, Bool.false_eq_true, if_false]
  rfl

theorem sequenceProps_prop (props : Props E) (consumed : List String)
    (calm : s.error_flag = false)
    (fits : ItemFits host default (Fits host mode target) (host.lr_get_property value name s).1
      (host.lr_get_property value name s).2) :
    sequenceProps host mode value (.prop (.name name) target default props) consumed s =
      unlessError (sequenceProps host mode value props (consumed ++ [name]))
        (plainItem host mode target default (host.lr_get_property value name s).1
          (host.lr_get_property value name s).2) := by
  simp only [sequenceProps, Key.evaluate, calm, fits.1, fits.2.1, unlessError,
    Bool.false_eq_true, if_false]
  rfl

theorem unlessError_calm (next : State V W → State V W)
    (calm : s.error_flag = false) : unlessError next s = next s := by
  unfold unlessError
  rw [calm]
  rfl

mutual
/-- Induction on the pattern. -/
theorem eval_pattern_sequence :
    ∀ (target : Target E) (value : V) (s : State V W), s.error_flag = false →
      Fits host mode target value s →
      eval_pattern host target value s = sequence host mode target value s
  | .identifier name, value, _, calm, fits => bind_eq name value calm fits
  | .member _, _, _, _, fits => False.elim fits
  | .array elements, value, s, calm, fits => eval_elements_sequence elements value 0 s calm fits
  | .object props, value, s, calm, fits => eval_props_sequence props value [] s calm fits

/-- On a pattern that fits, the elements are bound one after the other. -/
theorem eval_elements_sequence :
    ∀ (elements : Elements E) (value : V) (i : Nat) (s : State V W), s.error_flag = false →
      ElementsFit host mode value elements i s →
      eval_elements host value elements i s = sequenceElements host mode value elements i s
  | .nil, _, _, _, _, _ => rfl
  | .hole elements, value, i, s, calm, fits =>
    eval_elements_sequence elements value (i + 1) s calm fits
  | .rest (.identifier name), value, i, _, _, fits => by
      obtain ⟨copied, fine, fits⟩ := fits
      simp only [eval_elements, sequenceElements, restArray_plain copied, unlessError, fine,
        Bool.false_eq_true, if_false, sequence]
      rw [bind_eq name _ fine fits]
  | .elem target default elements, value, i, s, calm, fits => by
      obtain ⟨may, item, more, rest⟩ := fits
      have same := eval_pattern_sequence target
      rw [eval_elements_elem value elements i s may (no_member_of_fits item.2.2),
        bindItem_sequence item same, sequenceElements_elem elements item]
      rcases more with fine | last
      · rw [unlessError_calm _ fine]
        exact eval_elements_sequence elements value (i + 1) _ fine rest
      · rw [last]
        exact (ite_self _).symm

/-- On a pattern that fits, the properties are bound one after the other. -/
theorem eval_props_sequence :
    ∀ (props : Props E) (value : V) (consumed : List String) (s : State V W),
      s.error_flag = false → PropsFit host mode value props consumed s →
      eval_props host value props consumed s = sequenceProps host mode value props consumed s
  | .nil, _, _, _, _, _ => rfl
  | .rest (.identifier name), value, consumed, _, _, fits => by
      obtain ⟨copied, fine, fits⟩ := fits
      simp only [eval_props, sequenceProps, restObject_plain copied, unlessError, fine,
        Bool.false_eq_true, if_false, sequence]
      rw [bind_eq name _ fine fits]
  | .prop (.name name) target default props, value, consumed, s, calm, fits => by
      obtain ⟨may, item, more, rest⟩ := fits
      have same := eval_pattern_sequence target
      rw [eval_props_prop value name props consumed s may (no_member_of_fits item.2.2),
        bindItem_sequence item same, sequenceProps_prop name props consumed calm item]
      rcases more with fine | last
      · rw [unlessError_calm _ fine]
        exact eval_props_sequence props value (consumed ++ [name]) _ fine rest
      · rw [last]
        exact (ite_self _).symm
end

/-- A host without other code: 0 is `undefined`, and property 0 of every value is 5. -/
def smallHost : Host Nat Unit Nat where
  dup _ w := w
  free _ w := w
  mirror _ _ s := s
  undefined := 0
  is_undefined value := value == 0
  interp_eval_node value s := (value, s)
  lr_get_property _ name s := (if name = "0" then 5 else 0, s)
  lr_set_property _ _ _ s := s
  lr_get_own_property_names _ s := ([], s)
  lr_to_int32 value s := (value, s)
  lr_to_atom _ s := ("", s)
  lr_new_array s := (1, s)
  lr_new_object s := (1, s)
  lr_new_int32 n := n
  assign_member _ _ s := s

/-- The global scope after `let x = 1`; it may be followed by the scope of a function with a
parameter `a`. -/
def globalX : Scope Nat :=
  { is_function_scope := false, is_global_scope := true, mirror_globals := true,
    bindings := [⟨"x", 1, false, true⟩] }

def functionScope : Scope Nat :=
  { is_function_scope := true, is_global_scope := false, mirror_globals := false,
    bindings := [⟨"a", 0, false, false⟩] }

def stateIn (chain : List Nat) : State Nat Unit :=
  { chain := chain, global_scope := 0,
    scopes := fun address => if address = 0 then globalX else functionScope,
    shadow_restore_head := [], error_flag := false, world := () }

/-- The pattern `[x, , x = 8]`. -/
def twoElements : Target Nat :=
  .array (.elem (.identifier "x") none (.hole (.elem (.identifier "x") (some ⟨.assigned, 8⟩) .nil)))

theorem twoElements_agree :
    eval_pattern smallHost twoElements 3 (stateIn [0]) =
      sequence smallHost .assign twoElements 3 (stateIn [0]) := by
  have fits : Fits smallHost .assign twoElements 3 (stateIn [0]) := by
    refine ⟨rfl, ⟨rfl, rfl, ?_⟩, .inl rfl, rfl, ⟨rfl, rfl, ?_⟩, .inl rfl, trivial⟩
    · exact .inl rfl
    · exact .inl rfl
  exact eval_pattern_sequence twoElements 3 (stateIn [0]) rfl fits

/-- `[x] = v` in a function declares a new `x` there and leaves the `x` of the outer scope. -/
theorem pattern_declares_in_function :
    let pattern : Target Nat := .array (.elem (.identifier "x") none .nil)
    let after := eval_pattern smallHost pattern 3 (stateIn [1, 0])
    let plain := sequence smallHost .assign pattern 3 (stateIn [1, 0])
    (after.scopes 1).bindings = [⟨"a", 0, false, false⟩, ⟨"x", 5, false, false⟩] ∧
      (after.scopes 0) = globalX ∧ (plain.scopes 1).bindings = [⟨"a", 0, false, false⟩] ∧
      (plain.scopes 0).bindings = [⟨"x", 5, false, true⟩] := by
  decide

end Destructuring
end LRJS
