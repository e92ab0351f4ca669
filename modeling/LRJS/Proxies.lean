import LRJS.Calls
import LRJS.OwnKeys

/-!
# Proxies without traps

Each operation on a proxy without the trap for it calls the direct variant of the
operation on the target.  The direct variants know own properties and prototypes
only: no elements, no slots, no inner proxies, and no construction of scripted
functions.
-/

namespace LRJS

open List Option LRObject LRObjectType

inductive ProxyOp where
  | get (key : LRString)
  | set (key : LRString) (val : LRValue) (at_ : Addr)
  | has (key : LRString)
  | delete (key : LRString)
  | ownKeys
  | call (this : LRValue) (args : List LRValue)
  | construct (args : List LRValue)

namespace ProxyOp

def trap : ProxyOp → Name
  | .get _ => "get"
  | .set _ _ _ => "set"
  | .has _ => "has"
  | .delete _ => "deleteProperty"
  | .ownKeys => "ownKeys"
  | .call _ _ => "apply"
  | .construct _ => "construct"

section Performing

variable (protos : Prototypes) (alloc : Nat → Addr) (fuel : Nat) (h : Heap)

def perform (a : Addr) : ProxyOp → Option (Heap × Reply)
  | .get key => lr_get_property fuel h a key
  | .set key val at_ => lr_set_property fuel h a key val at_
  | .has key => lr_has_property fuel h a key
  | .delete key => lr_delete_property fuel h a key
  | .ownKeys => lr_get_own_property_names fuel h a
  | .call this args => lr_call protos alloc fuel h (.object a) this args
  | .construct args => lr_call_constructor protos alloc fuel h (.object a) args

def forward (target : LRValue) : ProxyOp → Option (Heap × Reply)
  | .get key => (lr_get_property_direct fuel h target key).map fun reply => (h, reply)
  | .set key val at_ => lr_set_property_direct fuel h target key val at_
  | .has key => (lr_has_property_direct fuel h target key).map fun reply => (h, reply)
  | .delete key => lr_delete_property_direct h target key
  | .ownKeys => (lr_get_own_property_names_direct h target).map fun reply => (h, reply)
  | .call this args => (lr_call_direct h target this args).map fun reply => (h, reply)
  | .construct args => (lr_call_constructor_direct h target args).map fun reply => (h, reply)

end Performing

end ProxyOp

def Heap.Untrapped (fuel : Nat) (h : Heap) (handler : LRValue) (name : Name) : Prop :=
  ∃ v, lr_get_property_direct fuel h handler (h.atom name) = some (.value v) ∧
    lr_is_function fuel h v = some false

def Heap.Trapless (fuel : Nat) (h : Heap) (handler : LRValue) : Prop :=
  ∀ op : ProxyOp, h.Untrapped fuel handler op.trap

def SameOutcome (one other : Option (Heap × Reply)) : Prop :=
  ∃ h₁ h₂ reply, one = some (h₁, reply) ∧ other = some (h₂, reply) ∧ h₁.objs = h₂.objs

def Transparent (protos : Prototypes) (alloc : Nat → Addr) (fuel : Nat) (h : Heap)
    (p t : Addr) : Prop :=
  ∀ op : ProxyOp, SameOutcome (op.perform protos alloc fuel h p) (op.perform protos alloc fuel h t)

/-! ## Forwarding -/

section Forwarding

variable {fuel : Nat} {h h' : Heap} {handler : LRValue} {name : Name}

section

variable {forward : Option (Heap × Reply)} (untrapped : h.Untrapped fuel handler name)
include untrapped

theorem withTrap_of_untrapped {onTrap : LRValue → Option (Heap × Reply)} :
    withTrap fuel h handler name onTrap forward = forward := by
  obtain ⟨v, fetched, notCallable⟩ := untrapped
  simp [withTrap, fetched, notCallable]

theorem trapOr_of_untrapped {onTrap : LRValue → Reply} :
    trapOr fuel h handler name onTrap forward = forward :=
  withTrap_of_untrapped untrapped

end

/-- An operation on a proxy without a trap is the operation on its target. -/
theorem perform_proxy (protos : Prototypes) (alloc : Nat → Addr) {p : Addr} {q : LRObject}
    {target : LRValue} (live : h.objs p = some q) (proxy : q.type = .proxy (some ⟨target, handler⟩))
    (trapless : h.Trapless fuel handler) (op : ProxyOp) :
    op.perform protos alloc fuel h p = op.forward fuel h target := by
  have untrapped := trapless op
  cases op with
  | get key =>
    have notFast : fastGet q key = none := by
      simp [fastGet, fastSlot, small, proxy, isPlain]
    simp only [ProxyOp.perform, lr_get_property, live, bind_eq_bind, bind_some,
      notFast, proxy, proxyGet]
    exact trapOr_of_untrapped untrapped
  | set key val at_ =>
    have notFast : q.fastSlot key = none := by
      simp [fastSlot, small, proxy, isPlain]
    simp only [ProxyOp.perform, lr_set_property, live, bind_eq_bind, bind_some,
      notFast, proxy, proxySet]
    exact trapOr_of_untrapped untrapped
  | has key =>
    simp only [ProxyOp.perform, lr_has_property, live, bind_eq_bind, bind_some,
      proxy, proxyHas]
    exact trapOr_of_untrapped untrapped
  | delete key =>
    simp only [ProxyOp.perform, lr_delete_property, live, bind_eq_bind, bind_some,
      proxy]
    exact trapOr_of_untrapped untrapped
  | ownKeys =>
    simp only [ProxyOp.perform, lr_get_own_property_names, live, bind_eq_bind,
      bind_some, proxy]
    exact trapOr_of_untrapped untrapped
  | call this args =>
    simp only [ProxyOp.perform, lr_call, live, bind_eq_bind, bind_some, proxy]
    exact withTrap_of_untrapped untrapped
  | construct args =>
    simp only [ProxyOp.perform, lr_call_constructor, live, bind_eq_bind,
      bind_some, proxy]
    exact withTrap_of_untrapped untrapped

theorem untrapped_of_trapOr {onTrap : LRValue → Reply} {forward : Option (Heap × Reply)}
    {reply : Reply} (run : trapOr fuel h handler name onTrap forward = some (h', reply))
    (notTrap : ∀ trap, reply ≠ onTrap trap)
    (notGetter : ∀ getter this args, reply ≠ .call getter this args (.trap name)) :
    h.Untrapped fuel handler name ∧ forward = some (h', reply) := by
  simp only [trapOr, withTrap, bind_eq_bind, bind_eq_some_iff] at run
  obtain ⟨fetched, lookup, run⟩ := run
  cases fetched with
  | value trap =>
    simp only [bind_eq_some_iff] at run
    obtain ⟨callable, isFunction, run⟩ := run
    cases callable with
    | true =>
      cases run
      exact (notTrap trap rfl).elim
    | false => exact ⟨⟨trap, lookup, isFunction⟩, run⟩
  | call getter this args use =>
    cases run
    exact (notGetter getter this args rfl).elim
  | status code | truth b | names tab => cases run

end Forwarding

/-! ## Walks along the prototypes -/

def answer (receiver : LRValue) : Option LRProperty → Reply
  | some found => lr_property_get receiver found
  | none => .value .undefined

section Walks

variable {h : Heap} {key : LRString} {receiver : LRValue}

theorem protoGetDirect_eq : ∀ {fuel : Nat} {proto : LRValue},
    protoGetDirect h receiver key fuel proto =
      (protoFind h key fuel proto).map (answer receiver) := by
  intro fuel
  induction fuel with
  | zero =>
    intro proto
    cases proto <;> rfl
  | succ fuel ih =>
    intro proto
    cases proto with
    | object p =>
      simp only [protoGetDirect, protoFind]
      cases h.objs p with
      | none => rfl
      | some po =>
        cases found : po.find_own_prop key with
        | some prop => simp [found, answer]
        | none => simp [found, ih]
    | _ => rfl

theorem lr_get_property_direct_eq {fuel : Nat} (obj : LRValue) :
    lr_get_property_direct fuel h obj key =
      (protoFind h key (fuel + 1) obj).map (answer obj) := by
  rw [← protoGetDirect_eq]
  cases obj <;> rfl

theorem lr_has_property_direct_eq {fuel : Nat} (obj : LRValue) :
    lr_has_property_direct fuel h obj key =
      (protoFind h key (fuel + 1) obj).map fun found => .truth found.isSome := by
  cases obj with
  | object a =>
    simp only [lr_has_property_direct, protoFind]
    cases h.objs a with
    | none => rfl
    | some o => cases found : o.find_own_prop key <;> simp [found]
  | _ => rfl

end Walks

namespace Heap

/-- What a proxy on a prototype chain answers for a key is what the walk that takes
the proxy for an ordinary object finds. -/
def ShownAlike (fuel : Nat) (h : Heap) (receiver : LRValue) (key : LRString) (p : Addr)
    (pd : LRProxyData) : Prop :=
  h.Untrapped fuel pd.handler "get" ∧ h.Untrapped fuel pd.handler "has" ∧
    ∃ shown passed, protoFind h key (fuel + 1) pd.target = some shown ∧
      protoFind h key (fuel + 1) (.object p) = some passed ∧
      shown.isSome = passed.isSome ∧ answer pd.target shown = answer receiver passed

/-- The first proxy on a prototype chain, if the walk for the key arrives there,
makes no difference. -/
def PassedBy (h : Heap) (receiver : LRValue) (key : LRString) : Nat → LRValue → Prop
  | fuel + 1, .object p => ∀ po, h.objs p = some po →
      match po.type with
      | .proxy none => protoFind h key (fuel + 1) (.object p) = some none
      | .proxy (some pd) => h.ShownAlike fuel receiver key p pd
      | _ => po.find_own_prop key = none → h.PassedBy receiver key fuel po.proto
  | _, _ => True

end Heap

section Walks

variable {h : Heap} {key : LRString} {receiver : LRValue}

theorem answer_cases (receiver : LRValue) (found : Option LRProperty) :
    (∃ v, answer receiver found = .value v) ∨
      ∃ getter, answer receiver found = .call getter receiver [] .result := by
  cases found with
  | none => exact .inl ⟨_, rfl⟩
  | some prop =>
    simp only [answer, lr_property_get]
    split
    · split
      · exact .inr ⟨_, rfl⟩
      · exact .inl ⟨_, rfl⟩
    · exact .inl ⟨_, rfl⟩

/-- A proxy shows what the plain walk finds exactly if its get and has answer so. -/
theorem shownAlike_iff {fuel : Nat} {p : Addr} {pd : LRProxyData} {found : Option LRProperty}
    (walk : protoFind h key (fuel + 1) (.object p) = some found) :
    h.ShownAlike fuel receiver key p pd ↔
      proxyGet fuel h (.object p) (some pd) key = some (h, answer receiver found) ∧
        proxyHas fuel h (some pd) key = some (h, .truth found.isSome) := by
  constructor
  · rintro ⟨noGet, noHas, shown, passed, shownWalk, passedWalk, sameHas, sameGet⟩
    obtain rfl : passed = found := some.inj (passedWalk.symm.trans walk)
    constructor
    · rw [proxyGet, trapOr_of_untrapped noGet, lr_get_property_direct_eq, shownWalk, ← sameGet]
      rfl
    · rw [proxyHas, trapOr_of_untrapped noHas, lr_has_property_direct_eq, shownWalk, ← sameHas]
      rfl
  · rintro ⟨gets, has⟩
    have noGet : h.Untrapped fuel pd.handler "get" ∧
        (lr_get_property_direct fuel h pd.target key).map (fun reply => (h, reply)) =
          some (h, answer receiver found) := by
      refine untrapped_of_trapOr gets (fun trap => ?_) (fun getter this args => ?_)
      all_goals
        rcases answer_cases receiver found with ⟨v, is⟩ | ⟨getter', is⟩ <;>
          simp [is]
    have noHas : h.Untrapped fuel pd.handler "has" ∧
        (lr_has_property_direct fuel h pd.target key).map (fun reply => (h, reply)) =
          some (h, .truth found.isSome) :=
      untrapped_of_trapOr has (by simp) (by simp)
    obtain ⟨untrappedGet, gets⟩ := noGet
    obtain ⟨untrappedHas, has⟩ := noHas
    rw [lr_get_property_direct_eq] at gets
    rw [lr_has_property_direct_eq] at has
    simp only [Option.map_map, Option.map_eq_some_iff, Function.comp_apply, Prod.mk.injEq,
      true_and, Reply.truth.injEq] at gets has
    obtain ⟨shown, shownWalk, sameGet⟩ := gets
    obtain ⟨shown', shownWalk', sameHas⟩ := has
    obtain rfl : shown' = shown := some.inj (shownWalk'.symm.trans shownWalk)
    exact ⟨untrappedGet, untrappedHas, shown', found, shownWalk, walk, sameHas, sameGet⟩

theorem protoHas_heap {h' : Heap} {reply : Reply} : ∀ {fuel : Nat} {proto : LRValue},
    protoHas h key fuel proto = some (h', reply) → h' = h := by
  intro fuel
  induction fuel with
  | zero =>
    intro proto run
    cases proto <;> cases run
    all_goals rfl
  | succ fuel ih =>
    intro proto run
    cases proto with
    | object p =>
      simp only [protoHas, bind_eq_bind, bind_eq_some_iff] at run
      obtain ⟨po, _, run⟩ := run
      split at run
      · next data _ =>
          cases data with
          | none =>
            cases run
            rfl
          | some pd =>
            rcases trapOr_cases run with same | forwarded
            · exact same
            · simp only [Option.map_eq_some_iff, Prod.mk.injEq] at forwarded
              obtain ⟨_, _, same, _⟩ := forwarded
              exact same.symm
      · split at run
        · cases run
          rfl
        · exact ih run
    | _ =>
      cases run
      rfl

/-- Proxies on a chain make no difference exactly where read and membership answer like the walks
that pass them by. -/
theorem passedBy_iff : ∀ {fuel : Nat} {proto : LRValue} {found : Option LRProperty},
    protoFind h key fuel proto = some found →
      (h.PassedBy receiver key fuel proto ↔
        protoGet h receiver key fuel proto = some (h, answer receiver found) ∧
          protoHas h key fuel proto = some (h, .truth found.isSome)) := by
  intro fuel
  induction fuel with
  | zero =>
    intro proto found walk
    cases proto <;> cases walk
    all_goals simp [Heap.PassedBy, protoGet, protoHas, answer]
  | succ fuel ih =>
    intro proto found walk
    cases proto with
    | object p =>
      have live : ∃ po, h.objs p = some po := by
        simp only [protoFind, bind_eq_bind, bind_eq_some_iff] at walk
        obtain ⟨po, live, _⟩ := walk
        exact ⟨po, live⟩
      obtain ⟨po, live⟩ := live
      cases kind : po.type with
      | proxy data =>
        cases data with
        | none =>
          simp only [Heap.PassedBy, live, some.injEq, forall_eq', kind, walk,
            protoGet, protoHas, bind_eq_bind, bind_some, proxyGet, proxyHas]
          cases found with
          | none => simp [answer]
          | some prop => simp
        | some pd =>
          simp only [Heap.PassedBy, live, some.injEq, forall_eq', kind,
            protoGet, protoHas, bind_eq_bind, bind_some]
          exact shownAlike_iff walk
      | _ =>
        simp only [protoFind, live, bind_eq_bind, bind_some] at walk
        simp only [Heap.PassedBy, live, some.injEq, forall_eq', kind,
          protoGet, protoHas, bind_eq_bind, bind_some]
        cases own : po.find_own_prop key with
        | some prop =>
          rw [own] at walk
          cases walk
          simp [answer]
        | none =>
          rw [own] at walk
          simpa using ih walk
    | _ =>
      cases walk
      simp [Heap.PassedBy, protoGet, protoHas, answer]

end Walks

/-! ## Fresh keys -/

theorem LRObject.fresh_keys (o : LRObject) :
    ∃ bound : Nat, ∀ key : LRString, bound ≤ key.addr → o.find_own_prop key = none := by
  have larger (chain : List LRProperty) : ∃ bound : Nat, ∀ prop ∈ chain, bound > prop.key.addr := by
    induction chain with
    | nil => exact ⟨0, fun prop member => absurd member not_mem_nil⟩
    | cons head rest ih =>
      obtain ⟨bound, below⟩ := ih
      refine ⟨max bound (head.key.addr + 1), fun prop member => ?_⟩
      rcases mem_cons.mp member with rfl | behind
      · omega
      · have := below prop behind
        omega
  obtain ⟨bound, below⟩ := larger o.prop_hash
  refine ⟨bound, fun key above => find_eq_none_iff.mpr fun member => ?_⟩
  obtain ⟨prop, inside, rfl⟩ := mem_map.mp member
  have := below prop inside
  omega

/-- Every walk misses all keys from some address on. -/
theorem fresh_walk {h : Heap} : ∀ {fuel : Nat} {proto : LRValue} (low : Nat),
    (∀ key : LRString, low ≤ key.addr → (protoFind h key fuel proto).isSome) →
      ∃ bound : Nat, ∀ key : LRString, bound ≤ key.addr →
        protoFind h key fuel proto = some none := by
  intro fuel
  induction fuel with
  | zero =>
    intro proto low ends
    cases proto with
    | object p =>
      have stuck := ends ⟨"", low⟩ (Nat.le_refl low)
      cases stuck
    | _ => exact ⟨0, fun _ _ => rfl⟩
  | succ fuel ih =>
    intro proto low ends
    cases proto with
    | object p =>
      cases live : h.objs p with
      | none =>
        have dangling := ends ⟨"", low⟩ (Nat.le_refl low)
        simp [protoFind, live] at dangling
      | some po =>
        obtain ⟨own, missing⟩ := po.fresh_keys
        have further : ∃ bound : Nat, ∀ key : LRString, bound ≤ key.addr →
            protoFind h key fuel po.proto = some none := by
          refine ih (max low own) fun key above => ?_
          have arrives := ends key (by omega)
          simpa [protoFind, live, missing key (by omega)] using arrives
        obtain ⟨bound, walk⟩ := further
        refine ⟨max own bound, fun key above => ?_⟩
        simp [protoFind, live, missing key (by omega), walk key (by omega)]
    | _ => exact ⟨0, fun _ _ => rfl⟩

/-! ## Targets -/

def LRObjectType.bare : LRObjectType → Bool
  | .plain | .other | .array none | .typedArray none => true
  | _ => false

/-- The target is bare, no slot has to follow a write, and no proxy on the prototype chain makes a
difference. -/
structure Heap.Forwards (fuel : Nat) (h : Heap) (t : Addr) (o : LRObject) : Prop where
  bare : o.type.bare
  unmirrored : ∀ key slot, o.shape_get_slot key = some slot →
    o.small = false ∧ ∀ prop, o.find_own_prop key = some prop → prop.flags.accessor
  prototypes : ∀ key, o.find_own_prop key = none →
    h.PassedBy (.object t) key fuel o.proto

section Sufficient

variable {protos : Prototypes} {alloc : Nat → Addr} {fuel : Nat} {h : Heap} {t : Addr}
variable {o : LRObject} {key : LRString}

namespace LRObjectType

theorem bare_notProxy {type : LRObjectType} (bare : type.bare) : type.isProxy = false := by
  cases type with
  | proxy data => simp [LRObjectType.bare] at bare
  | _ => rfl

end LRObjectType

theorem dense_of_bare (bare : o.type.bare) : o.dense key = none := by
  unfold dense
  split
  · next data type =>
      cases data with
      | none => rfl
      | some ad => simp [type, LRObjectType.bare] at bare
  · next tad type =>
      simp [type, LRObjectType.bare] at bare
  · rfl

theorem notFast_of_unrecorded (inv : o.WellFormed)
    (recorded : ∀ slot, o.shape_get_slot key = some slot → o.small = false) :
    o.fastSlot key = none := by
  rw [fastSlot]
  split
  · next small =>
      rw [slotInside_eq inv, eq_none_iff_forall_ne_some]
      intro slot found
      rw [recorded slot found] at small
      cases small
  · rfl

theorem lr_set_property_of_bare {val : LRValue} {at_ : Addr} (live : h.objs t = some o)
    (bare : o.type.bare) (notFast : o.fastSlot key = none) :
    lr_set_property fuel h t key val at_ = storeProperty fuel h t o key val at_ := by
  simp only [lr_set_property, live, bind_eq_bind, bind_some, notFast]
  split
  · next type => simp [type, LRObjectType.bare] at bare
  · next type => simp [type, LRObjectType.bare] at bare
  · next type => simp [type, LRObjectType.bare] at bare
  · rfl

theorem put_live (live : h.objs t = some o) : (h.put t o).objs = h.objs := by
  rw [Heap.put, ← live]
  exact Function.update_eq_self t h.objs

theorem slowGet_of_absent (inv : o.WellFormed) (live : h.objs t = some o)
    (absent : o.find_own_prop key = none) :
    slowGet fuel h t o key = protoGet h (.object t) key fuel o.proto := by
  unfold slowGet
  split
  · next cached hit =>
      obtain ⟨prop, member, rfl, _⟩ := Heap.shape_cache_lookup_some live hit
      cases (find_of_mem inv member).symm.trans absent
  · rw [absent]

theorem slowGet_of_own (fuel : Nat) {prop : LRProperty} (inv : o.WellFormed)
    (live : h.objs t = some o)
    (own : o.find_own_prop key = some prop) :
    ∃ h', slowGet fuel h t o key = some (h', lr_property_get (.object t) prop) ∧
      h'.objs = h.objs := by
  unfold slowGet
  split
  · next cached hit =>
      obtain ⟨cachedProp, member, rfl, data, rfl⟩ := Heap.shape_cache_lookup_some live hit
      rw [find_of_mem inv member, some.injEq] at own
      subst own
      simp only [LRPropFlags.accessor, Bool.or_eq_false_iff] at data
      exact ⟨h, by simp [lr_property_get, data.1], rfl⟩
  · rw [own]
    exact ⟨_, rfl, rfl⟩

theorem walk_own (live : h.objs t = some o) :
    protoFind h key (fuel + 1) (.object t) =
      match o.find_own_prop key with
      | some found => some (some found)
      | none => protoFind h key fuel o.proto := by
  cases own : o.find_own_prop key <;>
    simp only [protoFind, live, own, bind_eq_bind, bind_some]

namespace Heap.Forwards

variable (forwards : h.Forwards fuel t o) (inv : o.WellFormed) (live : h.objs t = some o)
  (ends : ∀ key, (protoFind h key fuel o.proto).isSome)

include forwards inv

theorem notFast : o.fastSlot key = none :=
  notFast_of_unrecorded inv fun slot recorded => (forwards.unmirrored key slot recorded).1

include live ends

theorem get : SameOutcome (ProxyOp.forward fuel h (.object t) (.get key))
    (lr_get_property fuel h t key) := by
  have slow : lr_get_property fuel h t key = slowGet fuel h t o key := by
    rw [lr_get_property_of_not_fast live (bare_notProxy forwards.bare)
      (by rw [fastGet, forwards.notFast inv]; rfl), dense_of_bare forwards.bare]
  rw [ProxyOp.forward, lr_get_property_direct_eq, walk_own live, slow]
  cases own : o.find_own_prop key with
  | some prop =>
    obtain ⟨h', reads, objs⟩ := slowGet_of_own fuel inv live own
    exact ⟨h, h', _, rfl, reads, objs.symm⟩
  | none =>
    obtain ⟨found, walk⟩ := isSome_iff_exists.mp (ends key)
    have reads := ((passedBy_iff walk).mp (forwards.prototypes key own)).1
    rw [slowGet_of_absent inv live own, reads]
    exact ⟨h, h, answer (.object t) found, by simp [walk], rfl, rfl⟩

omit inv in
theorem has : SameOutcome (ProxyOp.forward fuel h (.object t) (.has key))
    (lr_has_property fuel h t key) := by
  rw [ProxyOp.forward, lr_has_property_direct_eq, walk_own live,
    lr_has_property_of_not_proxy live (bare_notProxy forwards.bare)]
  cases own : o.find_own_prop key with
  | some prop => exact ⟨h, h, .truth true, rfl, rfl, rfl⟩
  | none =>
    obtain ⟨found, walk⟩ := isSome_iff_exists.mp (ends key)
    have has := ((passedBy_iff walk).mp (forwards.prototypes key own)).2
    exact ⟨h, h, .truth found.isSome, by simp [walk], has, rfl⟩

/-- A write that is forwarded has the outcome of the direct one. -/
theorem set {val : LRValue} {at_ : Addr} :
    SameOutcome (ProxyOp.forward fuel h (.object t) (.set key val at_))
      (lr_set_property fuel h t key val at_) := by
  rw [lr_set_property_of_bare live forwards.bare (forwards.notFast inv), ProxyOp.forward]
  simp only [lr_set_property_direct, live, bind_eq_bind, bind_some, storeProperty]
  cases own : o.find_own_prop key with
  | some prop =>
    dsimp only
    cases setter : lr_property_try_set_accessor (.object t) prop val with
    | some reply => exact ⟨h, _, reply, rfl, rfl, (put_live live).symm⟩
    | none =>
      -- a data property is not recorded, so nothing has to be mirrored
      have data := try_set_accessor_none setter
      have unrecorded : o.shape_get_slot key = none := by
        rw [eq_none_iff_forall_ne_some]
        intro slot recorded
        have accessor := (forwards.unmirrored key slot recorded).2 prop own
        rw [data] at accessor
        cases accessor
      have same : (o.setValue key val).mirror key val = o.setValue key val := by
        rw [mirror, slotInside_eq inv.setValue]
        have still : (o.setValue key val).shape_get_slot key = none := unrecorded
        rw [still]
      exact ⟨_, _, .status 0, rfl, rfl, by rw [same]; rfl⟩
  | none =>
    obtain ⟨found, walk⟩ := isSome_iff_exists.mp (ends key)
    simp only [walk, bind_some]
    cases setter : found.bind fun pp => lr_property_try_set_accessor (.object t) pp val with
    | some reply => exact ⟨h, _, reply, rfl, rfl, (put_live live).symm⟩
    | none => exact ⟨_, _, .status 0, rfl, rfl, rfl⟩

/-- On a bare target the forwarded operation has the outcome of the direct one. -/
theorem sameOutcome (op : ProxyOp) :
    SameOutcome (op.forward fuel h (.object t)) (op.perform protos alloc fuel h t) := by
  have bare := forwards.bare
  have notProxy := LRObjectType.bare_notProxy bare
  cases op with
  | get key => exact forwards.get inv live ends
  | set key val at_ => exact forwards.set inv live ends
  | has key => exact forwards.has live ends
  | delete key =>
    have deletes : lr_delete_property fuel h t key =
        some (lr_object_delete_own_prop h t o key) :=
      lr_delete_property_of_not_proxy live notProxy
    have directly : lr_delete_property_direct h (.object t) key =
        some (lr_object_delete_own_prop h t o key) := by
      simp [lr_delete_property_direct, live]
    exact ⟨_, _, _, directly, deletes, rfl⟩
  | ownKeys =>
    have lists : lr_get_own_property_names fuel h t = some (h, .names o.ownNames) :=
      lr_get_own_property_names_of_not_proxy live notProxy
    have directly : lr_get_own_property_names_direct h (.object t) =
        some (.names o.ownNames) := by
      simp [lr_get_own_property_names_direct, live]
    exact ⟨h, h, .names o.ownNames, by rw [ProxyOp.forward, directly]; rfl, lists, rfl⟩
  | call this args =>
    refine ⟨h, h, .value .undefined, ?_, ?_, rfl⟩
    · simp only [ProxyOp.forward, lr_call_direct, live, bind_eq_bind, bind_some]
      split <;> simp_all [LRObjectType.bare]
    · simp only [ProxyOp.perform, lr_call, live, bind_eq_bind, bind_some]
      split <;> simp_all [LRObjectType.bare]
  | construct args =>
    refine ⟨h, h, .value .undefined, ?_, ?_, rfl⟩
    · simp only [ProxyOp.forward, lr_call_constructor_direct, live, bind_eq_bind,
        bind_some]
      split <;> simp_all [LRObjectType.bare]
    · simp only [ProxyOp.perform, lr_call_constructor, live, bind_eq_bind,
        bind_some]
      split <;> simp_all [LRObjectType.bare]

end Heap.Forwards

end Sufficient

/-! ## What the direct variants miss -/

theorem constructScripted_calls {protos : Prototypes} {alloc : Nat → Addr} {fuel : Nat}
    {h h' : Heap} {f : Addr} {args : List LRValue} {v : LRValue} :
    constructScripted protos alloc fuel h f args ≠ some (h', .value v) := by
  intro run
  simp only [constructScripted, bind_eq_bind, bind_eq_some_iff] at run
  obtain ⟨⟨h₁, fetched⟩, _, run⟩ := run
  have afterwards {result : Heap × Reply} {next : Heap → Option (Heap × Reply)}
      (run : Reply.andThen result next = some (h', .value v)) :
      next result.1 = some (h', .value v) := by
    unfold Reply.andThen at run
    split at run
    · next called =>
        cases run
        cases called
    · exact run
  cases fetched with
  | value proto =>
    dsimp only at run
    split at run
    · cases run
    · simp only [bind_eq_some_iff] at run
      obtain ⟨linked, _, run⟩ := run
      have run := afterwards run
      simp only [bind_eq_some_iff] at run
      obtain ⟨stored, _, run⟩ := run
      cases afterwards run
  | call getter this getterArgs use => cases run
  | _ => cases run

theorem constructNative_calls {protos : Prototypes} {alloc : Nat → Addr} {fuel : Nat}
    {h h' : Heap} {f : Addr} {args : List LRValue} {func this : LRValue} {args' : List LRValue} :
    constructNative protos alloc fuel h f args ≠ some (h', .call func this args' .result) := by
  intro run
  simp only [constructNative, bind_eq_bind, bind_eq_some_iff] at run
  obtain ⟨⟨h₁, fetched⟩, _, run⟩ := run
  cases fetched with
  | value proto =>
    dsimp only at run
    split at run
    · cases linked : lr_set_prototype h₁ (alloc 0) proto with
      | none | some result => simp [linked] at run
    · cases run
  | call getter this getterArgs use => cases run
  | _ => cases run

section Necessary

variable {fuel : Nat} {h h₁ h₂ : Heap} {t : Addr} {o : LRObject} {key : LRString}
variable {val : LRValue} {at_ : Addr} {reply : Reply}

theorem direct_beside (live : h.objs t = some o)
    (run : lr_set_property_direct fuel h (.object t) key val at_ = some (h₁, reply)) :
    ∃ o₁, h₁.objs t = some o₁ ∧ o₁.type = o.type ∧
      (o₁.props = o.props ∨ o₁.props.length = o.props.length + 1) := by
  simp only [lr_set_property_direct, live, bind_eq_bind, bind_some] at run
  split at run
  · split at run
    · cases run
      exact ⟨o, live, rfl, .inl rfl⟩
    · cases run
      exact ⟨_, Heap.put_self .., rfl, .inl rfl⟩
  · simp only [bind_eq_some_iff] at run
    obtain ⟨setter, _, run⟩ := run
    split at run
    · cases run
      exact ⟨o, live, rfl, .inl rfl⟩
    · cases run
      exact ⟨_, Heap.put_self .., by simp, .inr (by simp)⟩

theorem direct_fresh (live : h.objs t = some o) (absent : o.find_own_prop key = none)
    (walk : protoFind h key fuel o.proto = some none) :
    ∃ h₁ o₁, lr_set_property_direct fuel h (.object t) key val at_ = some (h₁, .status 0) ∧
      h₁.objs t = some o₁ ∧ (o₁.find_own_prop key).isSome := by
  refine ⟨(newProperty h t o key val at_).1, _, ?_, Heap.put_self .., ?_⟩
  · simp [lr_set_property_direct, live, absent, walk]
  · simp [find_link]

theorem lr_set_property_keeps_proxy {data : Option LRProxyData} (live : h.objs t = some o)
    (proxy : o.type = .proxy data) (older : ∀ pd, data = some pd → pd.target ≠ .object t)
    (run : lr_set_property fuel h t key val at_ = some (h₂, reply)) : h₂.objs t = some o := by
  have notFast : o.fastSlot key = none := by
    simp [fastSlot, small, proxy, isPlain]
  simp only [lr_set_property, live, bind_eq_bind, bind_some, notFast, proxy] at run
  cases data with
  | none =>
    cases run
    exact live
  | some pd =>
    rcases trapOr_cases run with rfl | forwarded
    · exact live
    · obtain ⟨target, handler⟩ := pd
      cases target with
      | object u =>
        have different : t ≠ u := fun same => older _ rfl (same ▸ rfl)
        rcases (change_lr_set_property_direct forwarded).objs with same | ⟨_, _, _, _, objs⟩
        · rw [same]
          exact live
        · rw [objs, Function.update_of_ne different]
          exact live
      | _ =>
        cases forwarded
        exact live

theorem LRValue.exists_ne (v : LRValue) : ∃ val : LRValue, val ≠ v := by
  cases v with
  | null => exact ⟨.undefined, nofun⟩
  | _ => exact ⟨.null, nofun⟩

theorem lr_set_property_array {ad : LRArrayData} (live : h.objs t = some o)
    (array : o.type = .array (some ad))
    (run : lr_set_property fuel h t key val at_ = some (h₂, reply)) :
    ∃ o₂, h₂.objs t = some o₂ ∧ o₂.type = .array (some (denseSet ad key val)) := by
  have notFast : o.fastSlot key = none := by
    simp [fastSlot, small, array, isPlain]
  simp only [lr_set_property, live, bind_eq_bind, bind_some, notFast, array,
    storeProperty] at run
  split at run
  · split at run
    · cases run
      exact ⟨_, Heap.put_self .., rfl⟩
    · cases run
      exact ⟨_, Heap.put_self .., by simp⟩
  · simp only [bind_eq_some_iff] at run
    obtain ⟨setter, _, run⟩ := run
    split at run
    · cases run
      exact ⟨_, Heap.put_self .., rfl⟩
    · cases run
      exact ⟨_, Heap.put_self .., by simp⟩

theorem lr_set_property_typedArray {tad : TypedArrayData} {idx : Nat} (live : h.objs t = some o)
    (typed : o.type = .typedArray (some tad)) (index : lr_is_numeric_index key = some idx)
    (run : lr_set_property fuel h t key val at_ = some (h₂, reply)) :
    ∃ o₂, h₂.objs t = some o₂ ∧ o₂.prop_hash = o.prop_hash := by
  have notFast : o.fastSlot key = none := by
    simp [fastSlot, small, typed, isPlain]
  simp only [lr_set_property, live, bind_eq_bind, bind_some, notFast, typed,
    index] at run
  split at run
  · cases run
    exact ⟨_, Heap.put_self .., rfl⟩
  · cases run
    exact ⟨o, live, rfl⟩

end Necessary

/-! ## Transparency -/

section Transparency

variable {protos : Prototypes} {alloc : Nat → Addr} {fuel : Nat} {h : Heap} {t : Addr}
variable {o : LRObject}

/-- Only a bare target gives the same outcomes for all operations. -/
theorem bare_of_same (live : h.objs t = some o)
    (older : ∀ pd, o.type = .proxy (some pd) → pd.target ≠ .object t)
    (ends : ∀ key, (protoFind h key fuel o.proto).isSome) (same : ∀ op : ProxyOp,
      SameOutcome (op.forward fuel h (.object t)) (op.perform protos alloc fuel h t)) :
    o.type.bare := by
  obtain ⟨bound, fresh⟩ := fresh_walk 0 fun key _ => ends key
  obtain ⟨own, missing⟩ := o.fresh_keys
  -- an index that neither the target nor its prototypes have
  let key : LRString := ⟨"0", max bound own⟩
  have zero : lr_is_numeric_index ⟨"0", 0⟩ = some 0 := by decide
  have index : lr_is_numeric_index key = some 0 := zero
  have absent : o.find_own_prop key = none := missing key (Nat.le_max_right bound own)
  have walk : protoFind h key fuel o.proto = some none := fresh key (Nat.le_max_left bound own)
  have writes (val : LRValue) : ∃ (h₁ h₂ : Heap) (reply : Reply) (o₁ : LRObject),
      h₁.objs t = some o₁ ∧
      o₁.type = o.type ∧ (o₁.find_own_prop key).isSome ∧
      lr_set_property fuel h t key val 0 = some (h₂, reply) ∧ h₂.objs = h₁.objs := by
    obtain ⟨h₁, o₁, directly, live₁, added⟩ := direct_fresh live absent walk
    obtain ⟨h₁', h₂, reply, directly', performed, objs⟩ := same (.set key val 0)
    obtain ⟨rfl, -⟩ : h₁ = h₁' ∧ _ := Prod.mk.inj (some.inj (directly.symm.trans directly'))
    obtain ⟨o₁', live₁', type, _⟩ := direct_beside live directly
    obtain rfl : o₁ = o₁' := some.inj (live₁.symm.trans live₁')
    exact ⟨h₁, h₂, reply, o₁, live₁, type, added, performed, objs.symm⟩
  obtain ⟨_, _, constructed, directly, constructs, _⟩ := same (.construct [])
  simp only [ProxyOp.forward, ProxyOp.perform, lr_call_constructor_direct, lr_call_constructor,
    live, bind_eq_bind, bind_some] at directly constructs
  cases type : o.type with
  | plain | other => rfl
  | array data =>
    cases data with
    | none => rfl
    | some ad =>
      obtain ⟨val, different⟩ := LRValue.exists_ne (ad.elements 0)
      obtain ⟨h₁, h₂, reply, o₁, live₁, sameType, -, performed, objs⟩ := writes val
      obtain ⟨o₂, live₂, type₂⟩ := lr_set_property_array live type performed
      rw [objs, live₁, some.injEq] at live₂
      subst live₂
      rw [sameType, type, denseSet, index] at type₂
      injection type₂ with data
      injection data with arrays
      refine absurd ?_ different
      rw [arrays]
      simp [LRArrayData.write]
  | typedArray data =>
    cases data with
    | none => rfl
    | some tad =>
      obtain ⟨h₁, h₂, reply, o₁, live₁, -, added, performed, objs⟩ := writes .null
      obtain ⟨o₂, live₂, chain⟩ := lr_set_property_typedArray live type index performed
      rw [objs, live₁, some.injEq] at live₂
      subst live₂
      rw [find_own_prop, chain, ← find_own_prop, absent] at added
      cases added
  | proxy data =>
    obtain ⟨h₁, h₂, reply, o₁, live₁, -, added, performed, objs⟩ := writes .null
    have keeps : h₂.objs t = some o := by
      refine lr_set_property_keeps_proxy live type (fun pd is => ?_) performed
      exact older pd (by rw [type, is])
    rw [objs, live₁, some.injEq] at keeps
    rw [keeps, absent] at added
    cases added
  | function | bytecodeFunc =>
    rw [type] at directly constructs
    cases directly
    exact (constructScripted_calls constructs).elim
  | cfunction =>
    rw [type] at directly constructs
    cases directly
    exact (constructNative_calls constructs).elim

section

variable (inv : o.WellFormed) (live : h.objs t = some o) (bare : o.type.bare) {key : LRString}
include inv live bare

/-- Where all operations have the same outcomes, only accessors of large objects have a slot. -/
theorem unmirrored_of_same (same : ∀ op : ProxyOp,
      SameOutcome (op.forward fuel h (.object t)) (op.perform protos alloc fuel h t))
    {slot : Nat}
    (recorded : o.shape_get_slot key = some slot) :
    o.small = false ∧ ∀ prop, o.find_own_prop key = some prop → prop.flags.accessor := by
  obtain ⟨val, different⟩ := LRValue.exists_ne (o.slotValue slot)
  obtain ⟨h₁, h₂, reply, directly, performed, objs⟩ := same (.set key val 0)
  obtain ⟨o₁, live₁, _, beside⟩ := direct_beside live directly
  have bound := inv.inside recorded
  -- a write to the slot cannot come from the direct variant
  have unslotted {o₂ : LRObject} (live₂ : h₂.objs t = some o₂)
      (sameLength : o₂.props.length = o.props.length) (stored : o₂.slotValue slot = val) :
      False := by
    rw [← objs, live₁, some.injEq] at live₂
    subst live₂
    rcases beside with sameProps | longer
    · refine different ?_
      rw [← stored, slotValue, sameProps, slotValue]
    · omega
  have notSmall : o.small = false := by
    rw [Bool.eq_false_iff]
    intro small
    have fast : o.fastSlot key = some slot := by
      rw [fastSlot, if_pos small, slotInside_eq inv, recorded]
    simp only [ProxyOp.perform, lr_set_property, live, bind_eq_bind, bind_some,
      fast, some.injEq, Prod.mk.injEq] at performed
    obtain ⟨rfl, rfl⟩ := performed
    refine unslotted (Heap.put_self ..) length_setSlot ?_
    rw [slotValue_setSlot bound, if_pos rfl]
  refine ⟨notSmall, fun prop own => ?_⟩
  have notFast : o.fastSlot key = none := by
    rw [fastSlot, notSmall]
    rfl
  rw [ProxyOp.perform, lr_set_property_of_bare live bare notFast, storeProperty, own] at performed
  dsimp only at performed
  split at performed
  · next reply' called =>
      unfold lr_property_try_set_accessor at called
      split at called
      · next accessor => exact accessor
      · cases called
  · cases performed
    refine (unslotted (Heap.put_self ..) (by simp) ?_).elim
    rw [slotValue_mirror inv.setValue]
    exact if_pos recorded

theorem prototypes_of_same (notFast : ∀ {key}, o.fastSlot key = none)
    (ends : ∀ key, (protoFind h key fuel o.proto).isSome) (same : ∀ op : ProxyOp,
      SameOutcome (op.forward fuel h (.object t)) (op.perform protos alloc fuel h t))
    (absent : o.find_own_prop key = none) :
    h.PassedBy (.object t) key fuel o.proto := by
  have notProxy := bare_notProxy bare
  obtain ⟨found, walk⟩ := isSome_iff_exists.mp (ends key)
  refine (passedBy_iff walk).mpr ⟨?_, ?_⟩
  · obtain ⟨h₁, h₂, reply, directly, performed, _⟩ := same (.get key)
    rw [ProxyOp.perform, lr_get_property_of_not_fast live notProxy
      (by rw [fastGet, notFast]; rfl), dense_of_bare bare,
      slowGet_of_absent inv live absent] at performed
    rw [ProxyOp.forward, lr_get_property_direct_eq, walk_own live, absent] at directly
    simp only [walk, map_some, some.injEq, Prod.mk.injEq] at directly
    dsimp only at performed
    obtain rfl := protoGet_heap performed
    rw [performed, directly.2]
  · obtain ⟨h₁, h₂, reply, directly, performed, _⟩ := same (.has key)
    rw [ProxyOp.perform, lr_has_property_of_not_proxy live notProxy, absent] at performed
    rw [ProxyOp.forward, lr_has_property_direct_eq, walk_own live, absent] at directly
    simp only [walk, map_some, some.injEq, Prod.mk.injEq] at directly
    obtain rfl := protoHas_heap performed
    rw [directly.2]
    exact performed

end

end Transparency

/-- Where no object is made at an address that the shape cache remembers, no lookup reads a freed
property, and a proxy without traps is transparent exactly if the direct variants do on its target
what the operations do. -/
theorem proxy_transparent_iff (pool : Nat → Name) (fuel fuel' : Nat) (atoms : Name → Addr)
    (events : List PropEvent) (vm : PropVM) (protos : Prototypes) (alloc : Nat → Addr)
    (p t : Addr) (q o : LRObject) (handler : LRValue)
    (elsewhere : Runs.Throughout (PropVM.next pool fuel) PropVM.MadeElsewhere (.start atoms) events)
    (reached : Runs.after (PropVM.next pool fuel) (.start atoms) events = some vm)
    (proxyLive : vm.obj p = some q) (proxy : q.type = .proxy (some ⟨.object t, handler⟩))
    (trapless : vm.heap.Trapless fuel' handler) (live : vm.obj t = some o)
    (older : ∀ pd, o.type = .proxy (some pd) → pd.target ≠ .object t)
    (ends : ∀ key, (protoFind vm.heap key fuel' o.proto).isSome) :
    (∀ b, vm.heap.EntriesLive b) ∧
      (Transparent protos alloc fuel' vm.heap p t ↔ vm.heap.Forwards fuel' t o) := by
  refine ⟨fun b => PropVM.entriesLive_of_reached elsewhere reached, ?_⟩
  obtain ⟨inv, -⟩ := Heap.Sound.of_reached reached t o live
  constructor
  · intro transparent
    have same (op : ProxyOp) : SameOutcome (op.forward fuel' vm.heap (.object t))
        (op.perform protos alloc fuel' vm.heap t) := by
      rw [← perform_proxy protos alloc proxyLive proxy trapless op]
      exact transparent op
    have bare := bare_of_same live older ends same
    have unmirrored {key : LRString} {slot : Nat}
        (recorded : o.shape_get_slot key = some slot) : o.small = false ∧
          ∀ prop, o.find_own_prop key = some prop → prop.flags.accessor :=
      unmirrored_of_same inv live bare same recorded
    have notFast {key : LRString} : o.fastSlot key = none :=
      notFast_of_unrecorded inv fun slot recorded => (unmirrored recorded).1
    exact ⟨bare, fun key slot => unmirrored, fun key absent =>
      prototypes_of_same inv live bare notFast ends same absent⟩
  · intro forwards op
    rw [perform_proxy protos alloc proxyLive proxy trapless op]
    exact forwards.sameOutcome inv live ends op

/-- `new Proxy({ get b() { … } }, {})` -/
def accessorTarget : List PropEvent :=
  [.create 3 .plain .null, .create 1 .plain .null,
    .accessor 1 ⟨"b", 0⟩ (.object 7) .undefined,
    .create 2 (.proxy (some ⟨.object 1, .object 3⟩)) .null]

theorem proxy_transparent_accessorTarget :
    ∃ vm, Runs.after (PropVM.next (fun _ => "") 0) (.start fun _ => 0) accessorTarget = some vm ∧
      Transparent ⟨.null, .null⟩ (fun n => 10 + n) 0 vm.heap 2 1 := by
  have elsewhere : Runs.Throughout (PropVM.next (fun _ => "") 0) PropVM.MadeElsewhere
      (.start fun _ => 0) accessorTarget := by
    refine ⟨fun _ _ _ _ _ _ cached => (nomatch cached), fun _ taken => ?_⟩
    cases taken
    refine ⟨fun _ _ _ _ _ _ cached => (nomatch cached), fun _ taken => ⟨nofun, fun _ taken' => ?_⟩⟩
    cases taken
    cases taken'
    refine ⟨?_, fun _ _ => trivial⟩
    -- the accessor left an entry for the target
    rintro a type proto ⟨⟩ i entry cached
    change Function.update (fun _ => none) _ _ i = some entry at cached
    rw [Function.update_apply] at cached
    split at cached
    · cases cached
      decide
    · cases cached
  refine ⟨_, rfl, (proxy_transparent_iff (fun _ => "") 0 0 (fun _ => 0) accessorTarget _
    ⟨.null, .null⟩ (fun n => 10 + n) 2 1 _ _ (.object 3) elsewhere rfl rfl rfl ?_ rfl nofun
      ?_).2.mpr ?_⟩
  · exact fun op => ⟨.undefined, rfl, rfl⟩
  · exact fun _ => rfl
  · exact ⟨rfl, fun _ _ recorded => (nomatch recorded), fun _ _ => trivial⟩

/-- `t = { x: 1 }; p = new Proxy(t, {}); p.x = 2` leaves the slot of `t.x`. -/
theorem dataTarget_not_transparent :
    ∃ vm, Runs.after (PropVM.next (fun _ => "") 0) (.start fun _ => 0)
        [.create 3 .plain .null, .create 1 .plain .null, .set 1 ⟨"x", 0⟩ (.int32 1) 100,
          .create 2 (.proxy (some ⟨.object 1, .object 3⟩)) .null] = some vm ∧
      vm.heap.Trapless 0 (.object 3) ∧
      ¬ Transparent ⟨.null, .null⟩ (fun n => 10 + n) 0 vm.heap 2 1 := by
  refine ⟨_, rfl, fun op => ⟨.undefined, rfl, rfl⟩, fun transparent => ?_⟩
  obtain ⟨h₁, h₂, reply, onProxy, onTarget, objs⟩ := transparent (.set ⟨"x", 0⟩ (.int32 2) 101)
  have onProxy' : (h₁.objs 1).map props = some [.int32 1] := by
    cases onProxy
    rfl
  have onTarget' : (h₂.objs 1).map props = some [.int32 2] := by
    cases onTarget
    rfl
  rw [objs, onTarget'] at onProxy'
  exact absurd onProxy' (by decide)

end LRJS
