import LRJS.InlineCache

/-!
# The member cache of the tree-walker

`eval_member` keeps what it finds out about a name under the address of the name in the syntax
tree.  A hit trusts this address for the name, and the address and version of a shape for the slot;
both may belong to something else by then.  `import.meta`, receivers that are no objects and
`hit_count` are left out.
-/

namespace LRJS

open Function List Option

def LR_IC_SIZE : Nat := 64

/-- An active `LRInlineCache`. -/
structure LRInlineCache where
  prop_name : Addr
  prop_atom : LRString
  shape : Option Addr
  slot_index : Nat
  shape_version : Nat
deriving DecidableEq, Repr

/-- What a miss finds when it looks for the slot: an object that is still there, or the
freed memory of an object that is not. -/
inductive Release where
  | kept
  | last (found : Option (Addr × Nat × Nat))
deriving DecidableEq, Repr

namespace LRInlineCache

/-- The fast path of a hit; `none` is a read of the version through a null pointer. -/
def fastPath (ic : LRInlineCache) (o : LRObject) : Option (Option LRValue) :=
  if o.type.isPlain ∧ o.shape.map LRShape.addr = ic.shape then do
    let shape ← o.shape
    if ic.shape_version = shape.version ∧ ic.slot_index < o.props.length ∧
        o.slotValue ic.slot_index ≠ .undefined then
      some (some (o.slotValue ic.slot_index))
    else
      some none
  else
    some none

def filled (prop : Addr) (atom : LRString) : Option (Addr × Nat × Nat) → LRInlineCache
  | some (shape, slot, version) => ⟨prop, atom, some shape, slot, version⟩
  | none => ⟨prop, atom, none, 0, 0⟩

variable {found : Option (Addr × Nat × Nat)}

@[simp] theorem filled_prop_name {prop : Addr} {atom : LRString} :
    (filled prop atom found).prop_name = prop := by
  cases found <;> rfl

@[simp] theorem filled_prop_atom {prop : Addr} {atom : LRString} :
    (filled prop atom found).prop_atom = atom := by
  cases found <;> rfl

end LRInlineCache

def LRObject.recorded (o : LRObject) (atom : LRString) : Option (Addr × Nat × Nat) :=
  if o.type.isPlain then do
    let shape ← o.shape
    let slot ← shape.flat.find atom
    some (shape.addr, slot, shape.version)
  else
    none

inductive MemberFrame where
  | hit (a : Addr)
  | miss (a prop : Addr) (atom : LRString)
  | other
deriving DecidableEq, Repr

/-- The heap, the names of the live syntax trees by their addresses, the cache, and the
reads that are suspended. -/
structure MemberWalker where
  heap : Heap
  names : Addr → Option Name
  cache : Nat → Option LRInlineCache
  stack : List MemberFrame

/-- An operation of the engine, the parsing or freeing of a name, the read of the member whose name
is at an address, the return of a function. -/
inductive MemberEvent where
  | engine (operation : PropEvent)
  | parse (prop : Addr) (name : Name)
  | freeAst (prop : Addr)
  | member (a prop : Addr) (release : Release)
  | returned (v : LRValue) (release : Release)

namespace MemberWalker

/-- `prop % LR_IC_SIZE`. -/
def cacheIndex (prop : Addr) : Nat :=
  prop % LR_IC_SIZE

def entry (walker : MemberWalker) (prop : Addr) : Option LRInlineCache :=
  (walker.cache (cacheIndex prop)).filter fun ic => ic.prop_name = prop

/-- `lr_free_value(interp->ctx, obj)`. -/
def letGo (walker : MemberWalker) (a : Addr) : Release → MemberWalker
  | .kept => walker
  | .last _ => { walker with heap := lr_free_object walker.heap a }

def found (walker : MemberWalker) (a : Addr) (atom : LRString) :
    Release → Option (Addr × Nat × Nat)
  | .kept => (walker.heap.objs a).bind fun o => o.recorded atom
  | .last garbage => garbage

def fill (walker : MemberWalker) (a prop : Addr) (atom : LRString) (release : Release) :
    MemberWalker :=
  let ic := LRInlineCache.filled prop atom (walker.found a atom release)
  let released := walker.letGo a release
  { released with cache := Function.update released.cache (cacheIndex prop) (some ic) }

section Steps

variable (pool : Nat → Name) (fuel : Nat)

def lookup (walker : MemberWalker) (a : Addr) (atom : LRString) (frame : MemberFrame)
    (done : MemberWalker → MemberWalker) : Option (MemberWalker × Reply) := do
  let (heap, reply) ← lr_get_property fuel walker.heap a atom
  let walker := { walker with heap }
  match reply with
  | .call _ _ _ _ => some ({ walker with stack := frame :: walker.stack }, reply)
  | _ => some (done walker, reply)

/-- `eval_member` on an object. -/
def eval_member (walker : MemberWalker) (a prop : Addr) (release : Release) :
    Option (MemberWalker × Reply) := do
  let o ← walker.heap.objs a
  let name ← walker.names prop
  match walker.entry prop with
  | some ic =>
    match ← ic.fastPath o with
    | some v => some (walker.letGo a release, .value v)
    | none => walker.lookup fuel a ic.prop_atom (.hit a) (letGo · a release)
  | none =>
    let atom := walker.heap.atom name
    walker.lookup fuel a atom (.miss a prop atom) (fill · a prop atom release)

def engine (walker : MemberWalker) (operation : PropEvent) : Option (MemberWalker × Reply) := do
  let machine : PropVM := ⟨walker.heap, .empty, []⟩
  let (machine, reply) ← machine.step pool fuel operation
  let walker := { walker with heap := machine.heap }
  match reply with
  | .call _ _ _ _ => some ({ walker with stack := .other :: walker.stack }, reply)
  | _ => some (walker, reply)

def resume (walker : MemberWalker) (release : Release) : Option MemberWalker :=
  match walker.stack with
  | .hit a :: stack => some ({ walker with stack }.letGo a release)
  | .miss a prop atom :: stack => some ({ walker with stack }.fill a prop atom release)
  | .other :: stack => some { walker with stack }
  | [] => none

def step (walker : MemberWalker) : MemberEvent → Option (MemberWalker × Reply)
  | .engine operation => walker.engine pool fuel operation
  | .parse prop name =>
    if (walker.names prop).isNone then
      some ({ walker with names := Function.update walker.names prop (some name) }, .status 0)
    else
      none
  | .freeAst prop =>
    some ({ walker with names := Function.update walker.names prop none }, .status 0)
  | .member a prop release => walker.eval_member fuel a prop release
  | .returned v release => (walker.resume release).map fun walker => (walker, .value v)

def next (walker : MemberWalker) (event : MemberEvent) : Option MemberWalker :=
  (walker.step pool fuel event).map Prod.fst

end Steps

def start (atoms : Name → Addr) : MemberWalker :=
  ⟨⟨fun _ => none, fun _ => none, atoms, 0⟩, fun _ => none, fun _ => none, []⟩

end MemberWalker

def LRInlineCache.asSite (ic : LRInlineCache) (shape : Addr) : BCICPropCache :=
  ⟨shape, ic.shape_version, 0, ic.slot_index⟩

def LRInlineCache.SlotValid (ic : LRInlineCache) (h : Heap) : Prop :=
  ∀ shape, ic.shape = some shape →
    EntryValid (fun _ => ic.prop_atom.str) h (ic.asSite shape)

def LRInlineCache.FastPathSound (ic : LRInlineCache) (o : LRObject) : Prop :=
  o.type.isPlain → o.shape.map LRShape.addr = ic.shape → ∃ shape, o.shape = some shape ∧
    (ic.shape_version = shape.version → ic.slot_index < o.props.length →
      o.slotValue ic.slot_index ≠ .undefined →
        o.small ∨ o.HoldsBeside ic.prop_atom (o.slotValue ic.slot_index))

namespace MemberWalker

def NameValid (walker : MemberWalker) (prop : Addr) (atom : LRString) : Prop :=
  atom = walker.heap.atom atom.str ∧
    ∀ name, walker.names prop = some name → atom.str = name

def Remembers (walker : MemberWalker) (prop : Addr) (atom : LRString) : Prop :=
  (∃ ci ic, walker.cache ci = some ic ∧ ic.prop_name = prop ∧ ic.prop_atom = atom) ∨
    ∃ a, .miss a prop atom ∈ walker.stack

structure Inv (walker : MemberWalker) : Prop where
  heap : walker.heap.Inv
  names : ∀ {prop atom}, walker.Remembers prop atom → NameValid walker prop atom
  slots : ∀ {ci ic}, walker.cache ci = some ic → ic.SlotValid walker.heap

/-- No shape or object is made and no name is parsed at a remembered address, a miss does not
release the last reference, and a hit finds its slot in a small object or in step with the property.
-/
def Coherent (walker : MemberWalker) : MemberEvent → Prop
  | .engine operation => walker.heap.Allocatable operation.made ∧
      (∀ ci ic, walker.cache ci = some ic → ∀ shape, ic.shape = some shape →
        operation.made ≠ some shape) ∧
      ∀ b type proto, operation = .create b type proto → walker.heap.Unremembered b
  | .parse prop name => ∀ atom, walker.Remembers prop atom → atom.str = name
  | .freeAst _ => True
  | .member a prop release =>
    match walker.entry prop with
    | some ic => ∀ o, walker.heap.objs a = some o → ic.FastPathSound o
    | none => release = .kept
  | .returned _ release => ∀ a prop atom, walker.stack.head? = some (.miss a prop atom) →
      release = .kept

def HitTransparent (pool : Nat → Name) (fuel : Nat) (walker : MemberWalker) :
    MemberEvent → Prop
  | .member a prop release => ∀ name ic, walker.names prop = some name →
      walker.entry prop = some ic →
        (walker.step pool fuel (.member a prop release)).map Prod.snd =
          (lr_get_property fuel walker.heap a (walker.heap.atom name)).map Prod.snd
  | _ => True

section Steps

variable {pool : Nat → Name} {fuel : Nat} {walker walker' : MemberWalker}
variable {a prop : Addr} {atom : LRString} {ic : LRInlineCache} {reply : Reply}

variable {frame : MemberFrame} {done : MemberWalker → MemberWalker}

theorem lookup_reply :
    (walker.lookup fuel a atom frame done).map Prod.snd =
      (lr_get_property fuel walker.heap a atom).map Prod.snd := by
  unfold lookup
  cases lr_get_property fuel walker.heap a atom with
  | none => rfl
  | some found =>
    cases found with
    | mk heap reply => cases reply <;> rfl

theorem lookup_cases (run : walker.lookup fuel a atom frame done = some (walker', reply)) :
    ∃ heap : Heap, heap.objs = walker.heap.objs ∧ heap.atoms = walker.heap.atoms ∧
      (walker' = { walker with heap := heap, stack := frame :: walker.stack } ∨
        walker' = done { walker with heap := heap }) := by
  simp only [lookup, bind_eq_bind, bind_eq_some_iff] at run
  obtain ⟨⟨heap, found⟩, read, run⟩ := run
  obtain ⟨objs, atoms, _⟩ := lr_get_property_objs read
  refine ⟨heap, objs, atoms, ?_⟩
  split at run
  · exact .inl (Prod.mk.inj (some.inj run)).1.symm
  · exact .inr (Prod.mk.inj (some.inj run)).1.symm

theorem NameValid.of_atoms (valid : NameValid walker prop atom)
    (atoms : walker'.heap.atoms = walker.heap.atoms) (names : walker'.names = walker.names) :
    NameValid walker' prop atom := by
  constructor
  · rw [Heap.atom, atoms]
    exact valid.1
  · intro name named
    rw [names] at named
    exact valid.2 name named

section

variable (inv : walker.Inv)
include inv

theorem Inv.mono (heap : walker'.heap.Inv)
    (atoms : walker'.heap.atoms = walker.heap.atoms) (names : walker'.names = walker.names)
    (known : ∀ prop atom, walker'.Remembers prop atom →
      walker.Remembers prop atom ∨ NameValid walker prop atom)
    (slots : ∀ ci ic, walker'.cache ci = some ic → ic.SlotValid walker'.heap) : walker'.Inv where
  heap := heap
  names := by
    intro prop atom remembered
    have valid : NameValid walker prop atom := by
      cases known prop atom remembered with
      | inl old => exact inv.names old
      | inr new => exact new
    exact valid.of_atoms atoms names
  slots := slots _ _

theorem Inv.lookedUp {heap : Heap} (objs : heap.objs = walker.heap.objs)
    (atoms : heap.atoms = walker.heap.atoms) :
    ({ walker with heap := heap } : MemberWalker).Inv := by
  apply inv.mono
  · exact inv.heap.of_objs objs
  · exact atoms
  · rfl
  · exact fun prop atom remembered => .inl remembered
  · intro ci ic cached shape shaped
    exact (inv.slots cached shape shaped).of_objs atoms objs

theorem Inv.push (valid : ∀ a prop atom, frame = .miss a prop atom → NameValid walker prop atom) :
    ({ walker with stack := frame :: walker.stack } : MemberWalker).Inv := by
  apply inv.mono
  · exact inv.heap
  · rfl
  · rfl
  · intro prop atom remembered
    cases remembered with
    | inl cached => exact .inl (.inl cached)
    | inr suspended =>
      obtain ⟨a, member⟩ := suspended
      cases mem_cons.mp member with
      | inl top => exact .inr (valid a prop atom top.symm)
      | inr below => exact .inl (.inr ⟨a, below⟩)
  · exact fun ci ic cached => inv.slots cached

theorem Inv.pop {stack : List MemberFrame} (top : walker.stack = frame :: stack) :
    ({ walker with stack := stack } : MemberWalker).Inv := by
  apply inv.mono
  · exact inv.heap
  · rfl
  · rfl
  · intro prop atom remembered
    cases remembered with
    | inl cached => exact .inl (.inl cached)
    | inr suspended =>
      obtain ⟨a, member⟩ := suspended
      exact .inl (.inr ⟨a, top ▸ mem_cons_of_mem _ member⟩)
  · exact fun ci ic cached => inv.slots cached

theorem Inv.letGo (release : Release) : (walker.letGo a release).Inv := by
  cases release with
  | kept => exact inv
  | last garbage =>
    apply inv.mono
    · exact inv.heap.free a
    · rfl
    · rfl
    · exact fun prop atom remembered => .inl remembered
    · intro ci ic cached shape shaped
      exact (inv.slots cached shape shaped).free a

end

theorem recorded_cases (o : LRObject) (atom : LRString) :
    o.recorded atom = none ∨ ∃ shape slot, o.shape = some shape ∧
      o.shape_get_slot atom = some slot ∧
        o.recorded atom = some (shape.addr, slot, shape.version) := by
  by_cases plain : o.type.isPlain = true
  · cases shaped : o.shape with
    | none => exact .inl (by simp [LRObject.recorded, shaped])
    | some shape =>
      cases found : shape.flat.find atom with
      | none => exact .inl (by simp [LRObject.recorded, shaped, found])
      | some slot =>
        refine .inr ⟨shape, slot, rfl, ?_, ?_⟩
        · simp [LRObject.shape_get_slot, shaped, found]
        · simp [LRObject.recorded, plain, shaped, found]
  · exact .inl (if_neg plain)

theorem filled_slotValid {o : LRObject} (heap : walker.heap.Inv)
    (live : walker.heap.objs a = some o) (interned : atom = walker.heap.atom atom.str) :
    (LRInlineCache.filled prop atom (o.recorded atom)).SlotValid walker.heap := by
  cases recorded_cases o atom with
  | inl nothing =>
    rw [nothing]
    intro shape shaped
    cases shaped
  | inr something =>
    obtain ⟨node, slot, here, found, entry⟩ := something
    rw [entry]
    intro shape shaped b o' node' live' shaped' same
    have address : node.addr = shape := some.inj shaped
    obtain rfl : a = b := heap.owned live live' here shaped' (address.trans same.symm)
    obtain rfl : o = o' := some.inj (live.symm.trans live')
    exact (congrArg o.shape_get_slot interned.symm).trans found

theorem fill_cases {ci : Nat} (cached : (walker.fill a prop atom .kept).cache ci = some ic) :
    walker.cache ci = some ic ∨ ic = .filled prop atom (walker.found a atom .kept) := by
  simp only [fill, letGo, update_apply] at cached
  split at cached
  · exact .inr (some.inj cached).symm
  · exact .inl cached

/-- A new entry with a valid name keeps the cache valid. -/
theorem Inv.fill (inv : walker.Inv) (valid : NameValid walker prop atom) :
    (walker.fill a prop atom .kept).Inv := by
  apply inv.mono
  · exact inv.heap
  · rfl
  · rfl
  · intro prop' atom' remembered
    cases remembered with
    | inl cached =>
      obtain ⟨ci, ic, cached, rfl, rfl⟩ := cached
      cases fill_cases cached with
      | inl old => exact .inl (.inl ⟨ci, ic, old, rfl, rfl⟩)
      | inr new =>
        rw [new, LRInlineCache.filled_prop_name, LRInlineCache.filled_prop_atom]
        exact .inr valid
    | inr suspended => exact .inl (.inr suspended)
  · intro ci ic cached
    cases fill_cases cached with
    | inl old => exact inv.slots old
    | inr new =>
      rw [new, found]
      cases live : walker.heap.objs a with
      | none => exact fun shape shaped => by cases shaped
      | some o => exact filled_slotValid inv.heap live valid.1

theorem entry_cases (hit : walker.entry prop = some ic) :
    walker.cache (cacheIndex prop) = some ic ∧ ic.prop_name = prop := by
  simpa [entry, filter_eq_some_iff] using hit

theorem Inv.entryAtom (inv : walker.Inv) {name : Name} (hit : walker.entry prop = some ic)
    (named : walker.names prop = some name) : ic.prop_atom = walker.heap.atom name := by
  obtain ⟨cached, here⟩ := entry_cases hit
  have valid := inv.names (.inl ⟨_, ic, cached, here, rfl⟩)
  rw [← valid.2 name named]
  exact valid.1

/-- A member access that meets the condition keeps the cache valid. -/
theorem Inv.member {release : Release} (inv : walker.Inv)
    (coherent : walker.Coherent (.member a prop release))
    (run : walker.eval_member fuel a prop release = some (walker', reply)) : walker'.Inv := by
  simp only [eval_member, bind_eq_bind, bind_eq_some_iff] at run
  obtain ⟨o, live, name, named, run⟩ := run
  cases hit : walker.entry prop with
  | some ic =>
    simp only [hit, bind_eq_some_iff] at run
    obtain ⟨fast, taken, run⟩ := run
    cases fast with
    | some v =>
      cases run
      exact inv.letGo release
    | none =>
      obtain ⟨heap, objs, atoms, suspended | done⟩ := lookup_cases run
      · subst suspended
        apply (inv.lookedUp objs atoms).push
        intro b prop' atom' same
        cases same
      · subst done
        exact (inv.lookedUp objs atoms).letGo release
  | none =>
    have kept : release = .kept := by
      simpa [Coherent, hit] using coherent
    subst kept
    have valid : NameValid walker prop (walker.heap.atom name) :=
      ⟨rfl, fun name' named' => some.inj (named.symm.trans named')⟩
    simp only [hit] at run
    obtain ⟨heap, objs, atoms, suspended | done⟩ := lookup_cases run
    · subst suspended
      apply (inv.lookedUp objs atoms).push
      intro b prop' atom' same
      cases same
      exact valid.of_atoms atoms rfl
    · subst done
      exact (inv.lookedUp objs atoms).fill (valid.of_atoms atoms rfl)

theorem Inv.returned {v : LRValue} {release : Release} (inv : walker.Inv)
    (coherent : walker.Coherent (.returned v release))
    (run : walker.resume release = some walker') : walker'.Inv := by
  unfold resume at run
  split at run
  · next a stack top =>
      cases run
      exact (inv.pop top).letGo release
  · next a prop atom stack top =>
      have kept : release = .kept := coherent a prop atom (by rw [top]; rfl)
      have valid : NameValid walker prop atom :=
        inv.names (.inr ⟨a, top ▸ mem_cons_self⟩)
      subst kept
      cases run
      exact (inv.pop top).fill (valid.of_atoms rfl rfl)
  · next stack top =>
      cases run
      exact inv.pop top
  · cases run

theorem slotValid_step {operation : PropEvent} {h' : Heap} (valid : ic.SlotValid walker.heap)
    (unremembered : ∀ shape, ic.shape = some shape → operation.made ≠ some shape)
    (step : HeapStep pool walker.heap operation h') : ic.SlotValid h' :=
  fun shape shaped => step.entryValid (valid shape shaped) (unremembered shape shaped)

/-- An operation of the engine that meets the condition keeps the cache valid. -/
theorem Inv.engine {operation : PropEvent} (inv : walker.Inv)
    (coherent : walker.Coherent (.engine operation))
    (run : walker.engine pool fuel operation = some (walker', reply)) : walker'.Inv := by
  simp only [MemberWalker.engine, bind_eq_bind, bind_eq_some_iff] at run
  obtain ⟨⟨machine, answered⟩, ran, run⟩ := run
  have step : HeapStep pool walker.heap operation machine.heap := by
    apply (PropVM.step_cases _ ran).heap
    intro a si val at_ same b o si' slot live hit
    cases hit
  have kept : ({ walker with heap := machine.heap } : MemberWalker).Inv := by
    apply inv.mono
    · exact step.inv inv.heap coherent.1
    · exact step.atoms
    · rfl
    · exact fun prop atom remembered => .inl remembered
    · intro ci ic cached
      exact slotValid_step (inv.slots cached) (coherent.2.1 ci ic cached) step
  split at run
  · cases run
    apply kept.push
    intro a prop atom same
    cases same
  · cases run
    exact kept

theorem Inv.parse {name : Name} (inv : walker.Inv) (coherent : walker.Coherent (.parse prop name)) :
    ({ walker with names := update walker.names prop (some name) } :
      MemberWalker).Inv where
  heap := inv.heap
  names := by
    intro prop' atom remembered
    have valid := inv.names remembered
    refine ⟨valid.1, fun name' named => ?_⟩
    by_cases here : prop' = prop
    · subst here
      dsimp only at named
      rw [update_self, some.injEq] at named
      exact named ▸ coherent atom remembered
    · dsimp only at named
      rw [update_of_ne here] at named
      exact valid.2 name' named
  slots := inv.slots

theorem Inv.freeAst (inv : walker.Inv) (prop : Addr) :
    ({ walker with names := update walker.names prop none } : MemberWalker).Inv where
  heap := inv.heap
  names := by
    intro prop' atom remembered
    have valid := inv.names remembered
    refine ⟨valid.1, fun name' named => ?_⟩
    by_cases here : prop' = prop
    · dsimp only at named
      rw [here, update_self] at named
      cases named
    · dsimp only at named
      rw [update_of_ne here] at named
      exact valid.2 name' named
  slots := inv.slots

theorem Inv.step {event : MemberEvent} (inv : walker.Inv) (coherent : walker.Coherent event)
    (run : walker.step pool fuel event = some (walker', reply)) : walker'.Inv := by
  cases event with
  | engine operation => exact inv.engine coherent run
  | parse prop name =>
    simp only [MemberWalker.step] at run
    split at run
    · cases run
      exact inv.parse coherent
    · cases run
  | freeAst prop =>
    cases run
    exact inv.freeAst prop
  | member a prop release => exact inv.member coherent run
  | returned v release =>
    simp only [MemberWalker.step, map_eq_some_iff, Prod.mk.injEq] at run
    obtain ⟨resumed, ran, rfl, _⟩ := run
    exact inv.returned coherent ran

theorem Inv.start (atoms : Name → Addr) : (start atoms).Inv where
  heap := (PropVM.IcInv.start (fun _ => "") atoms).heap
  names := by
    intro prop atom remembered
    cases remembered with
    | inl cached =>
      obtain ⟨ci, ic, cached, _⟩ := cached
      cases cached
    | inr suspended =>
      obtain ⟨a, member⟩ := suspended
      cases member
  slots := by
    intro ci ic cached
    cases cached

theorem isProxy_of_isPlain {type : LRObjectType} (plain : type.isPlain) : type.isProxy = false := by
  cases type with
  | plain => rfl
  | _ => cases plain

/-- On a sound hit the fast path answers what `lr_get_property` answers. -/
theorem fastPath_sound {o : LRObject} (fuel : Nat) (inv : walker.Inv)
    (live : walker.heap.objs a = some o) (hit : walker.entry prop = some ic)
    (sound : ic.FastPathSound o) :
    ∃ fast, ic.fastPath o = some fast ∧ ∀ v, fast = some v →
      (lr_get_property fuel walker.heap a ic.prop_atom).map Prod.snd = some (.value v) := by
  unfold LRInlineCache.fastPath
  split
  · next taken =>
      obtain ⟨shape, shaped, reads⟩ := sound taken.1 taken.2
      rw [shaped, bind_eq_bind, bind_some]
      split
      · next usable =>
          refine ⟨_, rfl, fun v same => ?_⟩
          cases same
          obtain ⟨cached, here⟩ := entry_cases hit
          have interned := (inv.names (.inl ⟨_, ic, cached, here, rfl⟩)).1
          have recorded : o.shape_get_slot ic.prop_atom = some ic.slot_index := by
            rw [interned]
            exact inv.slots cached shape.addr (by rw [← taken.2, shaped]; rfl) a o shape live
              shaped rfl
          apply transparent_read (inv.heap.wellFormed live) live
            (isProxy_of_isPlain taken.1) recorded
          cases reads usable.1 usable.2.1 usable.2.2 with
          | inl small => exact .inl ⟨small, usable.2.2⟩
          | inr beside => exact .inr (.inl beside)
      · exact ⟨none, rfl, fun v same => by cases same⟩
  · exact ⟨none, rfl, fun v same => by cases same⟩

theorem hitTransparent_of_coherent {event : MemberEvent} (inv : walker.Inv)
    (coherent : walker.Coherent event) : walker.HitTransparent pool fuel event := by
  cases event with
  | member a prop release =>
    intro name ic named hit
    rw [← inv.entryAtom hit named]
    simp only [step, eval_member, named, hit, bind_eq_bind, bind_some]
    cases live : walker.heap.objs a with
    | none => simp [lr_get_property, live]
    | some o =>
      have sound : ic.FastPathSound o := by
        have all := coherent
        simp only [Coherent, hit] at all
        exact all o live
      obtain ⟨fast, taken, answers⟩ := fastPath_sound fuel inv live hit sound
      rw [bind_some, taken, bind_some]
      cases fast with
      | none => exact lookup_reply
      | some v => exact (answers v rfl).symm
  | _ => trivial

end Steps

end MemberWalker

/-- Where no shape and no name is made at a remembered address, no miss releases the last reference,
and no hit finds a slot out of step, every hit is transparent. -/
theorem member_cache_transparent (pool : Nat → Name) (fuel : Nat) (atoms : Name → Addr)
    (events : List MemberEvent)
    (coherent : Runs.Throughout (MemberWalker.next pool fuel) MemberWalker.Coherent
      (.start atoms) events) :
    Runs.Throughout (MemberWalker.next pool fuel) (MemberWalker.HitTransparent pool fuel)
      (.start atoms) events := by
  refine Runs.Throughout.of_invariant MemberWalker.Inv ?_ ?_ (.start atoms) coherent
  · intro walker event next inv met taken
    obtain ⟨⟨after, reply⟩, run, rfl⟩ := map_eq_some_iff.mp taken
    exact inv.step met run
  · exact fun walker event inv met => MemberWalker.hitTransparent_of_coherent inv met

/-- `o = { x: 1 }` and two turns of a loop with `o.x`: the second read hits. -/
theorem member_cache_transparent_loop :
    Runs.Throughout (MemberWalker.next (fun _ => "x") 0)
      (MemberWalker.HitTransparent (fun _ => "x") 0) (.start fun _ => 0)
      [.parse 7 "x", .engine (.create 1 .plain .null),
        .engine (.set 1 ⟨"x", 0⟩ (.int32 1) 100), .member 1 7 .kept, .member 1 7 .kept] := by
  have empty (walker : MemberWalker) (unused : walker.cache = fun _ => none)
      (idle : walker.stack = []) (prop : Addr) (atom : LRString) :
      ¬ walker.Remembers prop atom := by
    intro remembered
    cases remembered with
    | inl cached =>
      obtain ⟨ci, ic, cached, _⟩ := cached
      rw [unused] at cached
      cases cached
    | inr suspended =>
      obtain ⟨a, member⟩ := suspended
      rw [idle] at member
      cases member
  apply member_cache_transparent
  refine ⟨fun atom remembered => absurd remembered (empty _ rfl rfl _ _), fun _ taken => ?_⟩
  cases taken
  have unmade (h : Heap) : h.Allocatable none := by
    intro a o shape live shaped same
    cases same
  refine ⟨⟨unmade _, fun ci ic cached => (by cases cached), ?_⟩, fun _ taken => ?_⟩
  · exact fun _ _ _ _ _ _ cached => nomatch cached
  cases taken
  refine ⟨⟨?_, fun ci ic cached => (by cases cached), nofun⟩, fun _ taken => ?_⟩
  · intro a o shape live shaped
    dsimp only [lr_new_object, Heap.put] at live
    rw [update_apply] at live
    split at live
    · cases live
      cases shaped
    · cases live
  cases taken
  refine ⟨rfl, fun _ taken => ?_⟩
  cases taken
  refine ⟨fun o live _ _ => ?_, fun _ taken => trivial⟩
  cases live
  exact ⟨_, rfl, fun _ _ _ => .inl (by decide)⟩

/-- `o = {}` and two reads of `o.x` in a loop: the entry of the first has no shape, and the second
looks for its version. -/
theorem empty_object_read_twice :
    ¬ ∀ (pool : Nat → Name) (fuel : Nat) (atoms : Name → Addr) (events : List MemberEvent),
      Runs.Throughout (MemberWalker.next pool fuel) (MemberWalker.HitTransparent pool fuel)
        (.start atoms) events := by
  intro always
  have last := (always (fun _ => "x") 0 (fun _ => 0)
    ([.parse 7 "x", .engine (.create 1 .plain .null), .member 1 7 .kept] ++
      [.member 1 7 .kept])).at_step rfl "x" _ rfl rfl
  revert last
  decide

end LRJS
