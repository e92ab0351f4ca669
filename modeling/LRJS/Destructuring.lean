import LRJS.Scopes

/-!
# Destructuring

`eval_pattern` (`lr_interp.c`), which runs the patterns of declarations and of assignments, and
the sequence of single declarations or plain assignments that a pattern stands for.
-/

namespace LRJS
namespace Destructuring

open Scopes

/-- `AST_DEFAULT_VALUE`, as a pattern is parsed, or `AST_ASSIGN`, as a literal is. -/
inductive DefaultForm where
  | declared
  | assigned
deriving DecidableEq

structure Default (E : Type) where
  form : DefaultForm
  right : E

/-- A property key: an identifier, another literal, or a computed key, which may be an
identifier as well. -/
inductive Key (E : Type) where
  | name (text : String)
  | literal (text : String)
  | computed (key : E) (identifier : Option String)

mutual
/-- `member` stands for `AST_MEMBER` and `AST_COMPUTED_MEMBER`.  The shorthand `{a}` is the property
`a` with the target `a`. -/
inductive Target (E : Type) where
  | identifier (name : String)
  | member (expression : E)
  | array (elements : Elements E)
  | object (props : Props E)

inductive Elements (E : Type) where
  | nil
  | hole (elements : Elements E)
  | elem (target : Target E) (default : Option (Default E)) (elements : Elements E)
  | rest (target : Target E)

inductive Props (E : Type) where
  | nil
  | prop (key : Key E) (target : Target E) (default : Option (Default E)) (props : Props E)
  | rest (target : Target E)
end

structure Host (V W E : Type) extends Values V W where
  undefined : V
  is_undefined : V → Bool
  interp_eval_node : E → State V W → V × State V W
  lr_get_property : V → String → State V W → V × State V W
  lr_set_property : V → String → V → State V W → State V W
  lr_get_own_property_names : V → State V W → List String × State V W
  lr_to_int32 : V → State V W → Int × State V W
  lr_to_atom : V → State V W → String × State V W
  lr_new_array : State V W → V × State V W
  lr_new_object : State V W → V × State V W
  lr_new_int32 : Nat → V
  assign_member : E → V → State V W → State V W

variable {V W E : Type}

section Evaluation

variable (host : Host V W E)

def Host.release (value : V) (s : State V W) : State V W :=
  { s with world := host.free value s.world }

/-- How the loops over a rest treat each value after it was stored, and whether they stop at an
error. -/
structure Copying (V W : Type) where
  after : V → State V W → State V W
  stops : Bool

/-- The loops of `eval_pattern`: the value that `lr_set_property` has taken over is freed. -/
def Host.copying : Copying V W :=
  ⟨host.release, false⟩

def plainCopying : Copying V W :=
  ⟨fun _ s => s, true⟩

def copyElements (copying : Copying V W) (value rest_arr : V) :
    List Nat → Nat → State V W → State V W
  | [], _, s => s
  | j :: js, idx, s =>
    let (item, s) := host.lr_get_property value (toString j) s
    let s := copying.after item (host.lr_set_property rest_arr (toString idx) item s)
    if copying.stops && s.error_flag then
      s
    else
      copyElements copying value rest_arr js (idx + 1) s

def restArray (copying : Copying V W) (value : V) (i : Nat) (s : State V W) : V × State V W :=
  let (rest_arr, s) := host.lr_new_array s
  let (len_val, s) := host.lr_get_property value "length" s
  let (len, s) := host.lr_to_int32 len_val s
  let indices := List.range' i (len.toNat - i)
  let s := copyElements host copying value rest_arr indices 0 (host.release len_val s)
  (rest_arr, host.lr_set_property rest_arr "length" (host.lr_new_int32 indices.length) s)

def copyProperties (copying : Copying V W) (value rest_obj : V) :
    List String → State V W → State V W
  | [], s => s
  | name :: names, s =>
    let (item, s) := host.lr_get_property value name s
    let s := copying.after item (host.lr_set_property rest_obj name item s)
    if copying.stops && s.error_flag then s else copyProperties copying value rest_obj names s

def restObject (copying : Copying V W) (value : V) (consumed : List String) (s : State V W) :
    V × State V W :=
  let (rest_obj, s) := host.lr_new_object s
  let (names, s) := host.lr_get_own_property_names value s
  let left := names.filter fun name => !consumed.contains name
  (rest_obj, copyProperties host copying value rest_obj left s)

/-- The value, or the default for `undefined`. -/
def withDefault (default : Option (Default E)) (item : V) (s : State V W) : V × State V W :=
  match default with
  | none => (item, s)
  | some default =>
    if host.is_undefined item then
      host.interp_eval_node default.right (host.release item s)
    else
      (item, s)

/-- The elements that have a branch in `eval_pattern`. -/
def Target.covered : Target E → Option (Default E) → Bool
  | .identifier _, _ => true
  | .member _, default | .array _, default | .object _, default =>
    match default with
    | some default => decide (default.form = .declared)
    | none => false

def Target.nested : Target E → Bool
  | .array _ | .object _ => true
  | _ => false

/-- The name under which `eval_pattern` reads a property: the key must be an identifier. -/
def Key.key_name : Key E → Option String
  | .name text => some text
  | .literal _ => none
  | .computed _ identifier => identifier

mutual
/-- `eval_pattern`, and the declaring of identifiers; other targets are skipped. -/
def eval_pattern : Target E → V → State V W → State V W
  | .identifier name, value, s => scope_declare_name host.toValues name value 0 s
  | .member _, _, s => s
  | .array elements, value, s => eval_elements value elements 0 s
  | .object props, value, s => eval_props value props [] s

def eval_elements (value : V) : Elements E → Nat → State V W → State V W
  | .nil, _, s => s
  | .hole elements, i, s => eval_elements value elements (i + 1) s
  | .rest target, i, s =>
    match target with
    | .identifier name =>
      let (rest_arr, s) := restArray host host.copying value i s
      host.release rest_arr (scope_declare_name host.toValues name rest_arr 0 s)
    | _ => s
  | .elem target default elements, i, s =>
    let s₁ :=
      if target.covered default then
        let (item, s) := host.lr_get_property value (toString i) s
        let (item, s) := withDefault host default item s
        match target with
        | .identifier name =>
          host.release item (scope_declare_name host.toValues name item 0 s)
        | _ => host.release item s
      else if target.nested && default.isNone then
        let (item, s) := host.lr_get_property value (toString i) s
        host.release item (eval_pattern target item s)
      else
        s
    eval_elements value elements (i + 1) s₁

/-- The loop over the properties of an object pattern; `consumed` are the names of the
identifier keys before. -/
def eval_props (value : V) : Props E → List String → State V W → State V W
  | .nil, _, s => s
  | .rest target, consumed, s =>
    match target with
    | .identifier name =>
      let (rest_obj, s) := restObject host host.copying value consumed s
      host.release rest_obj (scope_declare_name host.toValues name rest_obj 0 s)
    | _ => s
  | .prop key target default props, consumed, s =>
    match key.key_name with
    | none => eval_props value props consumed s
    | some name =>
      let (item, s) := host.lr_get_property value name s
      let s₁ :=
        if target.covered default then
          let (item, s) := withDefault host default item s
          match target with
          | .identifier name =>
            host.release item (scope_declare_name host.toValues name item 0 s)
          | _ => host.release item s
        else if target.nested && default.isNone then
          host.release item (eval_pattern target item s)
        else
          host.release item s
      eval_props value props (consumed ++ [name]) s₁
end

inductive Mode where
  | declare (kind : Nat)
  | assign

def Mode.bind (name : String) (value : V) (s : State V W) : Mode → State V W
  | .declare kind => scope_declare_name host.toValues name value kind s
  | .assign => assign_identifier host.toValues name value s

def unlessError (next : State V W → State V W) (s : State V W) : State V W :=
  if s.error_flag then s else next s

def Key.evaluate (key : Key E) (s : State V W) : String × State V W :=
  match key with
  | .name text | .literal text => (text, s)
  | .computed key _ =>
    let (value, s) := host.interp_eval_node key s
    let (text, s) := host.lr_to_atom value s
    (text, host.release value s)

mutual
def sequence (mode : Mode) : Target E → V → State V W → State V W
  | .identifier name, value, s => mode.bind host name value s
  | .member expression, value, s => host.assign_member expression value s
  | .array elements, value, s => sequenceElements mode value elements 0 s
  | .object props, value, s => sequenceProps mode value props [] s

def sequenceElements (mode : Mode) (value : V) : Elements E → Nat → State V W → State V W
  | .nil, _, s => s
  | .hole elements, i, s => sequenceElements mode value elements (i + 1) s
  | .rest target, i, s =>
    let (rest_arr, s) := restArray host plainCopying value i s
    host.release rest_arr (unlessError (sequence mode target rest_arr) s)
  | .elem target default elements, i, s =>
    let (item, s) := host.lr_get_property value (toString i) s
    if s.error_flag then
      host.release item s
    else
      let (item, s) := withDefault host default item s
      let s := host.release item (unlessError (sequence mode target item) s)
      unlessError (sequenceElements mode value elements (i + 1)) s

def sequenceProps (mode : Mode) (value : V) : Props E → List String → State V W → State V W
  | .nil, _, s => s
  | .rest target, consumed, s =>
    let (rest_obj, s) := restObject host plainCopying value consumed s
    host.release rest_obj (unlessError (sequence mode target rest_obj) s)
  | .prop key target default props, consumed, s =>
    let (name, s) := key.evaluate host s
    if s.error_flag then
      s
    else
      let (item, s) := host.lr_get_property value name s
      if s.error_flag then
        host.release item s
      else
        let (item, s) := withDefault host default item s
        let s := host.release item (unlessError (sequence mode target item) s)
        unlessError (sequenceProps mode value props (consumed ++ [name])) s
end

end Evaluation

end Destructuring
end LRJS
