import LRJS.Operators
import LRJS.Proxies

/-!
# Prototype chains

Objects are created, written, and get other prototypes; a link holds a reference, so nothing on a
chain is freed.  `lr_set_prototype` does not look for cycles: as long as nobody closes one, the
walks along the chains end.
-/

namespace LRJS.PrototypeChains

open Option

/-- The objects from `v` on along the prototypes are there, and come to an end. -/
inductive Chain (h : Heap) : LRValue → Prop where
  | last {v : LRValue} (is : ∀ p, v ≠ .object p) : Chain h v
  | link {p : Addr} {o : LRObject} (there : h.objs p = some o) (further : Chain h o.proto) :
    Chain h (.object p)

/-- The object `a` is on the chain of `v`. -/
inductive OnChain (h : Heap) (a : Addr) : LRValue → Prop where
  | here : OnChain h a (.object a)
  | further {p : Addr} {o : LRObject} (there : h.objs p = some o) (on : OnChain h a o.proto) :
    OnChain h a (.object p)

def holds (h : Heap) (v : LRValue) : Bool :=
  match v with
  | .object p => (h.objs p).isSome
  | _ => true

/-- `write` is any change of an object but for its prototype. -/
inductive Event where
  | create (a : Addr) (type : LRObjectType) (proto : LRValue)
  | write (a : Addr) (o : LRObject)
  | setPrototype (a : Addr) (proto : LRValue)

def step (h : Heap) : Event → Option Heap
  | .create a type proto =>
    if (h.objs a).isNone ∧ holds h proto then some (lr_new_object h a type proto) else none
  | .write a o => do
    let old ← h.objs a
    if o.proto = old.proto then some (h.put a o) else none
  | .setPrototype a proto =>
    if holds h proto then (lr_set_prototype h a proto).map Prod.fst else none

/-- An object is not on the chain of its new prototype. -/
def ClosesNoCycle (h : Heap) : Event → Prop
  | .setPrototype a proto => ¬ OnChain h a proto
  | _ => True

def Sound (h : Heap) : Prop :=
  ∀ p, (h.objs p).isSome → Chain h (.object p)

variable {h h' : Heap} {a : Addr} {o : LRObject} {v : LRValue}

theorem Sound.chain (sound : Sound h) (held : holds h v = true) : Chain h v := by
  cases v with
  | object p => exact sound p held
  | _ => exact .last nofun

theorem Chain.put_apart (chain : Chain h v) (apart : ¬ OnChain h a v) : Chain (h.put a o) v := by
  induction chain with
  | last is => exact .last is
  | @link p old there further ih =>
    have other : p ≠ a := fun same => apart (same ▸ .here)
    exact .link ((h.put_of_ne o other).trans there) (ih fun on => apart (.further there on))

/-- A chain stays one if the replaced object keeps its own. -/
theorem Chain.put (chain : Chain h v) (new : ∀ old, h.objs a = some old →
    Chain (h.put a o) old.proto → Chain (h.put a o) (.object a)) : Chain (h.put a o) v := by
  induction chain with
  | last is => exact .last is
  | @link p old there further ih =>
    by_cases same : p = a
    · subst same
      exact new old there ih
    · exact .link ((h.put_of_ne o same).trans there) ih

theorem Sound.put (sound : Sound h) (own : Chain (h.put a o) (.object a)) :
    Sound (h.put a o) := by
  intro p there
  by_cases same : p = a
  · exact same ▸ own
  · rw [h.put_of_ne o same] at there
    exact (sound p there).put fun _ _ _ => own

/-- A step that closes no cycle keeps the prototypes without one. -/
theorem Sound.step (sound : Sound h) {event : Event} (keeps : ClosesNoCycle h event)
    (taken : step h event = some h') : Sound h' := by
  cases event with
  | create a type proto =>
    obtain ⟨⟨fresh, held⟩, rfl⟩ : (h.objs a = none ∧ _) ∧ lr_new_object h a type proto = h' := by
      simpa [PrototypeChains.step] using taken
    have further := (sound.chain held).put (o := .alloc type proto) fun old there => by
      cases fresh.symm.trans there
    exact sound.put (.link (h.put_self ..) further)
  | write a o =>
    obtain ⟨old, there, proto, rfl⟩ :
        ∃ old, h.objs a = some old ∧ o.proto = old.proto ∧ h.put a o = h' := by
      simpa [PrototypeChains.step, bind_eq_some_iff] using taken
    refine sound.put ((sound a (there ▸ rfl)).put fun old' there' further => ?_)
    cases there.symm.trans there'
    exact .link (h.put_self ..) (proto ▸ further)
  | setPrototype a proto =>
    obtain ⟨held, old, there, rfl⟩ : holds h proto = true ∧ ∃ old, h.objs a = some old ∧
        h.put a { old with proto } = h' := by
      simpa [PrototypeChains.step, lr_set_prototype, bind_eq_some_iff] using taken
    exact sound.put (.link (h.put_self ..) ((sound.chain held).put_apart keeps))

/-- With enough fuel there is a result. -/
def Ends {β : Type} (run : Nat → Option β) : Prop :=
  ∃ bound, ∀ fuel, bound ≤ fuel → (run fuel).isSome

theorem Ends.succ_map {β γ : Type} {run : Nat → Option β} (ends : Ends run) (f : β → γ) :
    Ends fun fuel => (run (fuel + 1)).map f := by
  obtain ⟨bound, ends⟩ := ends
  refine ⟨bound, fun fuel enough => ?_⟩
  rw [isSome_map]
  exact ends _ (Nat.le_succ_of_le enough)

/-- A walk ends if it goes on along the prototypes. -/
theorem Chain.ends (chain : Chain h v) {β : Type} {walk : Nat → LRValue → Option β}
    (stops : ∀ fuel v, (∀ p, v ≠ .object p) → (walk fuel v).isSome)
    (goesOn : ∀ fuel p o, h.objs p = some o → (walk fuel o.proto).isSome →
      (walk (fuel + 1) (.object p)).isSome) : Ends (walk · v) := by
  induction chain with
  | last is => exact ⟨0, fun fuel _ => stops fuel _ is⟩
  | link there further ih =>
    obtain ⟨bound, ends⟩ := ih
    refine ⟨bound + 1, fun | fuel + 1, enough => ?_⟩
    exact goesOn fuel _ _ there (ends fuel (Nat.le_of_succ_le_succ enough))

theorem Chain.find_ends (chain : Chain h v) (key : LRString) : Ends (protoFind h key · v) := by
  refine chain.ends (fun fuel v is => ?_) fun fuel p o there ends => ?_
  · cases v <;> cases fuel <;> first | rfl | exact absurd rfl (is _)
  · simp only [protoFind, there, bind_eq_bind, bind_some]
    split
    · rfl
    · exact ends

theorem Chain.instanceof_ends (chain : Chain h v) (proto : LRValue) :
    Ends (Engine.chainHas h proto · v) := by
  refine chain.ends (fun fuel v is => ?_) fun fuel p o there ends => ?_
  · cases v <;> cases fuel <;> first | rfl | exact absurd rfl (is _)
  · simp only [Engine.chainHas, there, bind_eq_bind, bind_some]
    split
    · rfl
    · exact ends

/-- The prototypes of `v` come to an end, and so do the walks along them. -/
structure Terminates (h : Heap) (v : LRValue) : Prop where
  chain : Chain h v
  get : ∀ key, Ends (lr_get_property_direct · h v key)
  has : ∀ key, Ends (lr_has_property_direct · h v key)
  instanceof : ∀ proto, Ends (Engine.chainHas h proto · v)

/-- Every look-up along a chain ends. -/
theorem Chain.terminates (chain : Chain h v) : Terminates h v where
  chain := chain
  get key := by
    simp only [lr_get_property_direct_eq]
    exact (chain.find_ends key).succ_map _
  has key := by
    simp only [lr_has_property_direct_eq]
    exact (chain.find_ends key).succ_map _
  instanceof := chain.instanceof_ends

def start (atoms : Name → Addr) : Heap :=
  ⟨fun _ => none, fun _ => none, atoms, 0⟩

/-- In every run whose steps close no cycle the look-ups of every object end. -/
theorem lookups_end (atoms : Name → Addr) (events : List Event) (h : Heap) (v : LRValue)
    (keeps : Runs.Throughout step ClosesNoCycle (start atoms) events)
    (arrives : Runs.after step (start atoms) events = some h) (held : holds h v = true) :
    Terminates h v := by
  have sound : Sound h :=
    keeps.invariant_after (fun _ _ _ sound => sound.step) (nofun : Sound (start atoms)) arrives
  exact (sound.chain held).terminates

def linked : List Event :=
  [.create 1 .plain .null, .create 2 .plain .null, .setPrototype 2 (.object 1)]

/-- Two objects, one of which is the prototype of the other. -/
theorem lookups_end_linked : ∃ h, Runs.after step (start fun _ => 0) linked = some h ∧
    Terminates h (.object 2) := by
  refine ⟨_, rfl, lookups_end (fun _ => 0) linked _ _ ?_ rfl rfl⟩
  refine ⟨trivial, fun _ first => ⟨trivial, fun _ second => ⟨fun on => ?_, fun _ _ => trivial⟩⟩⟩
  cases first
  cases second
  cases on with
  | further there on =>
    cases there
    cases on

end LRJS.PrototypeChains
