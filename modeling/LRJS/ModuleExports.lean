import LRJS.Scopes
import LRJS.TreeWalker

/-!
# Module exports

`eval_export` and `eval_import` with the accessors of `lr_export_live_binding` (`lr_interp.c`).  The
top-level bindings of all modules lie in the global scope.

A pair of accessors shares its data, which belongs to the getter; the namespace object (`installed`)
and programs hold references to it.  `Exports` says which binding is exported under a name.
-/

namespace LRJS
namespace Modules

open TreeWalker (labelBytes labelBytes_injective)

inductive Token where
  | identifier (text : String)
  | keyword (text : String)
deriving DecidableEq

def Token.text : Token → String
  | .identifier text => text
  | .keyword text => text

/-- `name as alias` in an export list. -/
structure Specifier where
  name : Token
  alias_ : Option Token
deriving DecidableEq

/-- What follows `export default`. -/
inductive DefaultForm where
  | expression
  | function (name : String)
  | class_ (name : String)
deriving DecidableEq

/-- Imports and exports.  The names of a declaration are those that it binds; an import has
pairs of an exported and a local name. -/
inductive Statement where
  | default (form : DefaultForm)
  | named (specifiers : List Specifier) (source : Option Nat)
  | all (source : Nat)
  | declaration (kind : Nat) (names : List String)
  | import_ (source : Nat) (specifiers : List (String × String))
deriving DecidableEq

abbrev Program := Nat → List Statement

abbrev Local := Nat × String

def DefaultForm.binding : DefaultForm → String
  | .expression => "*default*"
  | .function name => name
  | .class_ name => name

def Specifier.exported (specifier : Specifier) : String :=
  (specifier.alias_.getD specifier.name).text

variable (program : Program)

def Imported (m : Nat) (name : String) : Prop :=
  ∃ source specifiers exported,
    .import_ source specifiers ∈ program m ∧ (exported, name) ∈ specifiers

inductive Explicit (m : Nat) : String → Prop where
  | default {form : DefaultForm} (statement : .default form ∈ program m) : Explicit m "default"
  | declaration {kind : Nat} {names : List String} {name : String}
      (statement : .declaration kind names ∈ program m) (member : name ∈ names) : Explicit m name
  | named {specifiers : List Specifier} {source : Option Nat} {specifier : Specifier}
      (statement : .named specifiers source ∈ program m) (member : specifier ∈ specifiers) :
      Explicit m specifier.exported

inductive Exports : Nat → String → Local → Prop where
  | default {m : Nat} {form : DefaultForm} (statement : .default form ∈ program m) :
      Exports m "default" (m, form.binding)
  | declaration {m kind : Nat} {names : List String} {name : String}
      (statement : .declaration kind names ∈ program m) (member : name ∈ names) :
      Exports m name (m, name)
  | named {m : Nat} {specifiers : List Specifier} {specifier : Specifier}
      (statement : .named specifiers none ∈ program m) (member : specifier ∈ specifiers)
      (own : ¬ Imported program m specifier.name.text) :
      Exports m specifier.exported (m, specifier.name.text)
  | imported {m source : Nat} {specifiers : List Specifier} {specifier : Specifier}
      {imports : List (String × String)} {exported : String} {binding : Local}
      (statement : .named specifiers none ∈ program m) (member : specifier ∈ specifiers)
      (imported : .import_ source imports ∈ program m)
      (local_ : (exported, specifier.name.text) ∈ imports)
      (found : Exports source exported binding) : Exports m specifier.exported binding
  | again {m source : Nat} {specifiers : List Specifier} {specifier : Specifier}
      {binding : Local} (statement : .named specifiers (some source) ∈ program m)
      (member : specifier ∈ specifiers)
      (found : Exports source specifier.name.text binding) : Exports m specifier.exported binding
  | all {m source : Nat} {name : String} {binding : Local}
      (statement : .all source ∈ program m) (notDefault : name ≠ "default")
      (notExplicit : ¬ Explicit program m name) (found : Exports source name binding) :
      Exports m name binding

def ExportedAs (m : Nat) (name : String) (binding : Local) : Prop :=
  Exports program m name binding ∧ ∀ other, Exports program m name other → other = binding

def Unbound (m : Nat) (name : String) : Prop :=
  .default (.function name) ∈ program m ∨
    (name = DefaultForm.expression.binding ∧ .default .expression ∈ program m)

/-- `LiveBindData` and its two functions. -/
structure Pair where
  scope : List Nat
  name : List UInt8
  module_ : Nat
  exported : String
  installed : Bool
  getters : Nat
  setters : Nat

inductive Entry (V : Type) where
  | value (v : V)
  | accessor (pair : Nat)
deriving DecidableEq

/-- `stale` says that an accessor was used after its scope or its data was released. -/
structure Session (V W : Type) where
  interp : Scopes.State V W
  released : Nat → Bool
  pairs : List Pair
  spaces : Nat → List (String × Entry V)
  stale : Bool

/-- Reference counts and the global object, and the value `undefined`. -/
structure Host (V W : Type) where
  undefined : V
  dup : V → W → W
  free : V → W → W
  mirror : String → V → W → W

variable {V W : Type}

def Host.values (host : Host V W) : Scopes.Values V W where
  dup := host.dup
  free := host.free
  mirror name value s := { s with world := host.mirror name value s.world }

def bindName (name : String) : List UInt8 :=
  (labelBytes name).take 255

def putEntry (name : String) (entry : Entry V) :
    List (String × Entry V) → List (String × Entry V)
  | [] => [(name, entry)]
  | head :: rest =>
    if head.1 = name then (name, entry) :: rest else head :: putEntry name entry rest

def Pair.alive (pair : Pair) : Bool :=
  pair.installed || pair.getters != 0

namespace Session

variable (host : Host V W) (s : Session V W)

def entry (m : Nat) (name : String) : Option (Entry V) :=
  (s.spaces m).lookup name

def put (m : Nat) (name : String) (e : Entry V) : Session V W :=
  { s with spaces := Function.update s.spaces m (putEntry name e (s.spaces m)) }

def find (chain : List Nat) (name : List UInt8) : Option (Nat × Nat) :=
  chain.findSome? fun address =>
    ((s.interp.scopes address).bindings.findIdx? fun binding =>
      labelBytes binding.name == name).map fun i => (address, i)

def touch (pair : Pair) : Session V W :=
  { s with stale := s.stale || !pair.alive || (pair.scope.head?.map s.released).getD false }

/-- `live_bind_getter_cfunc`. -/
def live_bind_getter (n : Nat) : V × Session V W :=
  match s.pairs[n]? with
  | none => (host.undefined, s)
  | some pair =>
    let value := (s.find pair.scope pair.name).bind fun place =>
      (s.interp.scopes place.1).bindings[place.2]?.map Scopes.Binding.value
    (value.getD host.undefined, s.touch pair)

/-- `live_bind_setter_cfunc` with `scope_set_name_in_scope`. -/
def live_bind_setter (n : Nat) (value : V) : Session V W :=
  match s.pairs[n]? with
  | none => s
  | some pair =>
    match s.find pair.scope pair.name with
    | none => s.touch pair
    | some place =>
      { s.touch pair with
        interp := Scopes.overwrite host.values place.1 place.2 value s.interp }

/-- `lr_get_property_str` on a namespace object. -/
def get_property (m : Nat) (name : String) : V × Session V W :=
  match s.entry m name with
  | none => (host.undefined, s)
  | some (.value v) => (v, s)
  | some (.accessor n) => s.live_bind_getter host n

/-- `lr_set_property_str` on a namespace object. -/
def set_property (m : Nat) (name : String) (value : V) : Session V W :=
  match s.entry m name with
  | some (.accessor n) => s.live_bind_setter host n value
  | _ => s.put m name (.value value)

def onPair (n : Nat) (f : Pair → Pair) : Session V W :=
  { s with pairs := s.pairs.modify n f }

def uninstall (n : Nat) : Session V W :=
  s.onPair n fun pair => { pair with installed := false }

def detach (m : Nat) (name : String) : Session V W :=
  match s.entry m name with
  | some (.accessor n) => s.uninstall n
  | _ => s

def lr_export_live_binding (m : Nat) (name : String) : Session V W :=
  let pair : Pair :=
    { scope := s.interp.chain, name := bindName name, module_ := m, exported := name,
      installed := true, getters := 0, setters := 0 }
  let detached := s.detach m name
  { detached with pairs := detached.pairs ++ [pair] }.put m name (.accessor s.pairs.length)

def declareAll (kind : Nat) (bound : List (String × V)) : Session V W :=
  { s with
    interp := bound.foldl
      (fun interp pair => Scopes.scope_declare_name host.values pair.1 pair.2 kind interp)
      s.interp }

def evalSpecifier (m : Nat) (source : Option Nat) (specifier : Specifier) : Session V W :=
  match specifier.name with
  | .keyword _ => s
  | .identifier local_name =>
    let exported_name :=
      match specifier.alias_ with
      | some (.identifier alias_) => alias_
      | _ => local_name
    match source with
    | none => s.lr_export_live_binding m exported_name
    | some source =>
      let got := s.get_property host source local_name
      got.2.set_property host m exported_name got.1

/-- One name of `export *`. -/
def evalStar (m source : Nat) (name : String) : Session V W :=
  if name = "default" then
    s
  else
    let got := s.get_property host source name
    got.2.set_property host m name got.1

/-- `eval_import`, for one specifier. -/
def evalImport (source : Nat) (names : String × String) : Session V W :=
  let got := s.get_property host source names.1
  got.2.declareAll host 1 [(names.2, got.1)]

/-- `eval_export` or `eval_import`; `values` are those of a declaration or a default export. -/
def evaluate (m : Nat) (statement : Statement) (values : List V) : Session V W :=
  match statement with
  | .default form =>
    let value := values.headD host.undefined
    let declared :=
      match form with
      | .class_ name => s.declareAll host 1 [(name, value)]
      | _ => s
    declared.set_property host m "default" value
  | .named specifiers source =>
    specifiers.foldl (fun s specifier => s.evalSpecifier host m source specifier) s
  | .all source =>
    ((s.spaces source).map Prod.fst).foldl (fun s name => s.evalStar host m source name) s
  | .declaration kind names =>
    names.foldl (fun s name => s.lr_export_live_binding m name)
      (s.declareAll host kind (names.zip values))
  | .import_ source specifiers =>
    specifiers.foldl (fun s names => s.evalImport host source names) s

end Session

/-- `declare`, `assign` and `assignSlot` are a top-level declaration and assignments that mean a
top-level binding, by its name or by the slot that the compiler gave it; `bind`, `assignInner` and
`assignInnerSlot` mean other bindings.  A program reads, writes or deletes a property of a
namespace, or takes its accessors to call or to drop them. -/
inductive Action (V : Type) where
  | declare (m : Nat) (name : String) (value : V) (kind : Nat)
  | assign (m : Nat) (name : String) (value : V)
  | assignSlot (m : Nat) (name : String) (slot : Nat) (value : V)
  | bind (name : String) (value : V) (kind : Nat)
  | assignInner (name : String) (value : V)
  | assignInnerSlot (slot : Nat) (value : V)
  | enter (address : Nat) (scope : Scopes.Scope V)
  | leave
  | release (address : Nat)
  | evaluate (m : Nat) (statement : Statement) (values : List V)
  | read (m : Nat) (name : String)
  | write (m : Nat) (name : String) (value : V)
  | delete (m : Nat) (name : String)
  | descriptor (m : Nat) (name : String)
  | dropGetter (n : Nat)
  | dropSetter (n : Nat)
  | callGetter (n : Nat)
  | callSetter (n : Nat) (value : V)

/-- `BC_STORE_LOCAL`: the value is moved into a slot of the current scope. -/
def store_local (host : Host V W) (slot : Nat) (value : V) (s : Scopes.State V W) :
    Scopes.State V W :=
  let dropped := { s with world := host.free value s.world }
  match s.chain with
  | [] => dropped
  | scope :: _ =>
    match (s.scopes scope).bindings[slot]? with
    | none => dropped
    | some binding =>
      { s.putBindings scope
          ((s.scopes scope).bindings.set slot { binding with value := value }) with
        world := host.free binding.value s.world }

namespace Session

variable (host : Host V W) (s : Session V W)

def erase (m : Nat) (name : String) : Session V W :=
  let without := (s.spaces m).filter fun property => property.1 != name
  { s.detach m name with spaces := Function.update s.spaces m without }

def step : Action V → Session V W
  | .declare _ name value kind => s.declareAll host kind [(name, value)]
  | .assign _ name value =>
    { s with interp := Scopes.assign_identifier host.values name value s.interp }
  | .assignSlot _ _ slot value | .assignInnerSlot slot value =>
    { s with interp := store_local host slot value s.interp }
  | .bind name value kind => s.declareAll host kind [(name, value)]
  | .assignInner name value =>
    { s with interp := Scopes.assign_identifier host.values name value s.interp }
  | .enter address scope =>
    { s with
      interp := { s.interp with
        chain := address :: s.interp.chain
        scopes := Function.update s.interp.scopes address scope }
      released := Function.update s.released address false }
  | .leave => { s with interp := Scopes.interp_pop_scope host.values s.interp }
  | .release address => { s with released := Function.update s.released address true }
  | .evaluate m statement values => s.evaluate host m statement values
  | .read m name => (s.get_property host m name).2
  | .write m name value => s.set_property host m name value
  | .delete m name => s.erase m name
  | .descriptor m name =>
    match s.entry m name with
    | some (.accessor n) =>
      s.onPair n fun pair =>
        { pair with getters := pair.getters + 1, setters := pair.setters + 1 }
    | _ => s
  | .dropGetter n => s.onPair n fun pair => { pair with getters := pair.getters - 1 }
  | .dropSetter n => s.onPair n fun pair => { pair with setters := pair.setters - 1 }
  | .callGetter n =>
    match s.pairs[n]? with
    | some pair => if pair.getters = 0 then s else (s.live_bind_getter host n).2
    | none => s
  | .callSetter n value =>
    match s.pairs[n]? with
    | some pair => if pair.setters = 0 then s else s.live_bind_setter host n value
    | none => s

end Session

end Modules
end LRJS
