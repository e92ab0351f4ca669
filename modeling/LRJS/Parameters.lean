import LRJS.Objects

/-!
# Parameters

How a call binds the parameters of its function: `interp_call_function` and the general path of
`interp_bc_call_function` declare one name after the other in a table of limited size, the fast
path of `interp_bc_call_function` fills a table that is large enough.
-/

namespace LRJS.Parameters

abbrev Entry := Name × LRValue

structure State (World : Type) where
  entries : List Entry
  world : World

structure Table (World : Type) extends State World where
  capacity : Nat

/-- The evaluation of the default or the pattern of the parameter at a place.  It may give new
values to the names of the scope, and `adds` names: an assignment to a name that is found
nowhere declares it in the function scope. -/
structure Host (World : Type) where
  default : Nat → ASTNode → State World → LRValue × State World
  pattern : Nat → ASTNode → LRValue → State World → (Name → LRValue) × State World
  adds : Nat → ASTNode → State World → List Entry
  newArray : List LRValue → World → LRValue × World
  default_names : ∀ i e s, (default i e s).2.entries.map Prod.fst = s.entries.map Prod.fst
  pattern_names : ∀ i p v s, (pattern i p v s).2.entries.map Prod.fst = s.entries.map Prod.fst

inductive Form where
  | plain (target : ASTNode)
  | rest (target : ASTNode)
  | default (target right : ASTNode)
  | other

def form : ASTNode → Form
  | .rest target | .spreadElement target => .rest target
  | .defaultValue left right | .assign _ left right => .default left right
  | p@(.identifier _) | p@(.pattern ..) | p@(.array _) | p@(.object _) => .plain p
  | _ => .other

def reached : List ASTNode → List ASTNode
  | [] => []
  | p :: params =>
    match form p with
    | .rest _ => [p]
    | _ => p :: reached params

def name? : ASTNode → Option Name
  | .identifier name => some name
  | _ => none

def assign (name : Name) (v : LRValue) : List Entry → List Entry
  | [] => []
  | entry :: entries =>
    if entry.1 = name then (name, v) :: entries else entry :: assign name v entries

def lookup (name : Name) : List Entry → Option LRValue
  | [] => none
  | entry :: entries => if entry.1 = name then some entry.2 else lookup name entries

def bound (name : Name) (v : LRValue) (entries : List Entry) : List Entry :=
  if name ∈ entries.map Prod.fst then assign name v entries else entries ++ [(name, v)]

def boundAll (added entries : List Entry) : List Entry :=
  added.foldl (fun entries entry => bound entry.1 entry.2 entries) entries

namespace Table

variable {World : Type} (t : Table World)

def names : List Name :=
  t.entries.map Prod.fst

/-- `scope_declare_name_direct`. -/
def direct (name : Name) (v : LRValue) : Table World :=
  if t.capacity ≤ t.entries.length then t else { t with entries := t.entries ++ [(name, v)] }

/-- `scope_declare_name`: a full table is doubled. -/
def declare (name : Name) (v : LRValue) : Table World :=
  { t with
    entries := bound name v t.entries
    capacity :=
      if name ∉ t.names ∧ t.capacity ≤ t.entries.length then 2 * t.capacity else t.capacity }

def declareAll (added : List Entry) : Table World :=
  added.foldl (fun t entry => t.declare entry.1 entry.2) t

end Table

section Binders

variable {World : Type} (names : ASTNode → List Name) (host : Host World) (argv : List LRValue)

/-- The argument, or the default with the names that its evaluation adds. -/
def given (i : Nat) (right : ASTNode) (s : State World) :
    LRValue × State World × List Entry :=
  if argv.getD i .undefined = .undefined then
    ((host.default i right s).1, (host.default i right s).2, host.adds i right s)
  else (argv.getD i .undefined, s, [])

/-- The names of a pattern with their values, behind those that its evaluation adds. -/
def patternEntries (i : Nat) (target : ASTNode) (v : LRValue) (s : State World) : List Entry :=
  host.adds i target s ++
    (names target).map fun name => (name, (host.pattern i target v s).1 name)

/-- `eval_pattern` on a parameter; `names` are those that the pattern declares. -/
def evalPattern (i : Nat) (target : ASTNode) (v : LRValue) (t : Table World) : Table World :=
  { t with toState := (host.pattern i target v t.toState).2 }.declareAll
    (patternEntries names host i target v t.toState)

def bind (t : Table World) (param : ASTNode × Nat) : Table World :=
  match form param.1 with
  | .plain target =>
    match name? target with
    | some name => t.direct name (argv.getD param.2 .undefined)
    | none => evalPattern names host param.2 target (argv.getD param.2 .undefined) t
  | .rest target =>
    match name? target with
    | some name =>
      let r := host.newArray (argv.drop param.2) t.world
      { t with world := r.2 }.direct name r.1
    | none => t
  | .default target right =>
    match name? target with
    | some name =>
      let r := given host argv param.2 right t.toState
      ({ t with toState := r.2.1 }.declareAll r.2.2).direct name r.1
    | none => t
  | .other => t

/-- The entries of `scope_new_inline`. -/
def inlineEntries (params : List ASTNode) : List Entry :=
  params.zipIdx.map fun param => ((name? param.1).getD "", argv.getD param.2 .undefined)

def meantTarget (i : Nat) (target : ASTNode) (v : LRValue) (s : State World) : State World :=
  match name? target with
  | some name => { s with entries := bound name v s.entries }
  | none =>
    let r := (host.pattern i target v s).2
    { r with entries := boundAll (patternEntries names host i target v s) r.entries }

def meant (s : State World) (param : ASTNode × Nat) : State World :=
  match form param.1 with
  | .plain target => meantTarget names host param.2 target (argv.getD param.2 .undefined) s
  | .rest target =>
    let r := host.newArray (argv.drop param.2) s.world
    meantTarget names host param.2 target r.1 { s with world := r.2 }
  | .default target right =>
    let r := given host argv param.2 right s
    meantTarget names host param.2 target r.1
      { r.2.1 with entries := boundAll r.2.2 r.2.1.entries }
  | .other => s

end Binders

/-- A function with its body: whether it is derived and its parent is found, and whether it
refers to `arguments`. -/
structure Callee where
  params : List ASTNode
  derived : Bool
  parentFound : Bool
  usesArguments : Bool

structure Call (World : Type) where
  this_val : LRValue
  superctor : LRValue
  superproto : LRValue
  arguments : LRValue
  argv : List LRValue
  world : World

def fixed {World : Type} (callee : Callee) (call : Call World) : List Entry :=
  ("this", call.this_val) ::
    ((if callee.derived && callee.parentFound then
        [("%superctor%", call.superctor), ("%superproto%", call.superproto)] else []) ++
      if callee.usesArguments then [("arguments", call.arguments)] else [])

def fixedNames (callee : Callee) : List Name :=
  "this" ::
    ((if callee.derived && callee.parentFound then ["%superctor%", "%superproto%"] else []) ++
      if callee.usesArguments then ["arguments"] else [])

def Callee.inline (callee : Callee) : Bool :=
  !callee.derived && !callee.usesArguments && !callee.params.isEmpty &&
    callee.params.all fun p => (name? p).isSome

section Calls

variable {World : Type} (names : ASTNode → List Name) (host : Host World) (callee : Callee)
variable (capacity : Nat) (call : Call World)

/-- The binder of `interp_call_function`, up to a number of parameters. -/
def interp_call_function (k : Nat) : State World :=
  (((reached callee.params).take k).zipIdx.foldl (bind names host call.argv)
    ⟨⟨fixed callee call, call.world⟩, capacity⟩).toState

/-- The binder of `interp_bc_call_function`. -/
def interp_bc_call_function (k : Nat) : State World :=
  if callee.inline then
    ⟨fixed callee call ++ inlineEntries call.argv (callee.params.take k), call.world⟩
  else
    (((reached callee.params).take k).zipIdx.foldl (bind names host call.argv)
      ⟨⟨fixed callee call, call.world⟩, capacity⟩).toState

def meantCall (k : Nat) : State World :=
  ((reached callee.params).take k).zipIdx.foldl (meant names host call.argv)
    ⟨fixed callee call, call.world⟩

end Calls

def Agree {World : Type} (s t : State World) : Prop :=
  s.world = t.world ∧ ∀ name, lookup name s.entries = lookup name t.entries

/-- For every evaluation that adds at most the names of `adds`, both binders bind what is meant. -/
def Right (names adds : ASTNode → List Name) (callee : Callee) (capacity : Nat) : Prop :=
  ∀ (World : Type) (host : Host World) (call : Call World) (k : Nat),
    (∀ i e s, (host.adds i e s).map Prod.fst ⊆ adds e) →
      Agree (interp_call_function names host callee capacity call k)
          (meantCall names host callee call k) ∧
        Agree (interp_bc_call_function names host callee capacity call k)
          (meantCall names host callee call k)

abbrev Room := List Name × Nat

def Table.room {World : Type} (t : Table World) : Room :=
  (t.names, t.capacity)

def placeDirect (room : Room) (name : Name) : Option Room :=
  if name ∈ room.1 ∨ room.2 ≤ room.1.length then none else some (room.1 ++ [name], room.2)

def placeDeclared (room : Room) (name : Name) : Room :=
  if name ∈ room.1 then room
  else (room.1 ++ [name], if room.2 ≤ room.1.length then 2 * room.2 else room.2)

/-- A pattern stands by itself only: not behind `...`, and without a default.  `added` are the names
that the evaluation of the default or the pattern adds. -/
def place (names : ASTNode → List Name) (added : List Name) (room : Room) (p : ASTNode) :
    Option Room :=
  match form p with
  | .plain target =>
    match name? target with
    | some name => placeDirect room name
    | none => some ((added ++ names target).foldl placeDeclared room)
  | .rest target =>
    match name? target with
    | some name => placeDirect room name
    | none => none
  | .default target _ =>
    match name? target with
    | some name => placeDirect (added.foldl placeDeclared room) name
    | none => none
  | .other => some room

/-- What is evaluated for a parameter. -/
def evaluated (p : ASTNode) : ASTNode :=
  match form p with
  | .plain target | .rest target => target
  | .default _ right => right
  | .other => p

/-- Every parameter has a place, whichever names the evaluations add. -/
def Places (names adds : ASTNode → List Name) : List ASTNode → Room → Prop
  | [], _ => True
  | p :: params, room =>
    ∀ added ⊆ adds (evaluated p), ∃ next, place names added room p = some next ∧
      Places names adds params next

def Placed (names adds : ASTNode → List Name) (callee : Callee) (capacity : Nat) : Prop :=
  Places names adds (reached callee.params) (fixedNames callee, capacity)

end LRJS.Parameters
