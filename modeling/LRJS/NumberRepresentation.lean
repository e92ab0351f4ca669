import LRJS.NumberForms

/-!
# The representation of numbers in all uses

The conversions, jumps, increments and element accesses, and with the operators
the table of the uses that tell `INT32(n)` from `FLOAT64(n)`.
-/

namespace LRJS

open List Option PropVM LRObject

variable {E : Engine} {s : EngineState} {caches : PropCaches} {n : Int}

theorem Reply.Same.refl (r : Reply) : r.Same r := by
  cases r with
  | value v => exact LRValue.Same.refl v
  | _ => rfl

theorem Seen.Same.refl (x : Seen) : x.Same x := by
  cases x with
  | computed c => exact Computed.Same.refl c
  | slot pushed stored =>
    refine ⟨?_, Computed.Same.refl stored⟩
    cases pushed with
    | none => exact rel_none_none
    | some v => exact rel_some_some.mpr (LRValue.Same.refl v)
  | replied r => exact Reply.Same.refl r
  | _ => rfl

theorem Engine.Indistinct.refl (x : Option (Seen × EngineState)) : E.Indistinct x x := by
  cases x with
  | none => exact rel_none_none
  | some result =>
    refine rel_some_some.mpr ?_
    unfold SameUse
    cases result.2.error with
    | none => exact Seen.Same.refl _
    | some e => rfl

theorem Engine.indistinct_of_eq {x y : Option (Seen × EngineState)} (same : x = y) :
    E.Indistinct x y := by
  rw [same]
  exact Indistinct.refl y

theorem Engine.indistinct_some {x y : Seen} {s s' : EngineState} (clean : s.error = none)
    (clean' : s'.error = none) : E.Indistinct (some (x, s)) (some (y, s')) ↔ x.Same y := by
  unfold Indistinct
  rw [rel_some_some]
  unfold SameUse
  simp only [clean, clean']

theorem Engine.indistinct_computed {x y : Option (Computed × EngineState)} :
    E.Indistinct (x.map fun (c, s) => (.computed c, s)) (y.map fun (c, s) => (.computed c, s)) ↔
      E.Agree x y := by
  unfold Indistinct Agree
  cases x with
  | none =>
    cases y with
    | none => exact iff_of_true rel_none_none rel_none_none
    | some q => exact iff_of_false not_rel_none_some not_rel_none_some
  | some p =>
    cases y with
    | none => exact iff_of_false not_rel_some_none not_rel_some_none
    | some q =>
      rw [map_some, map_some, rel_some_some, rel_some_some]
      exact Iff.rfl

theorem jumpTruth_eq (v : LRValue) : jumpTruth v = lr_to_bool v := by
  unfold jumpTruth
  split
  · split <;> rfl
  · rfl

theorem taken_number (range : Double.InInt32 n) (op : JumpOp) :
    op.taken (.float64 (.ofInt n)) = op.taken (.int32 n) := by
  cases op with
  | ifFalse | ifTrue => simp only [JumpOp.taken, jumpTruth_eq, lr_to_bool_number range]
  | ifFalseKeep | ifTrueKeep => simp only [JumpOp.taken, lr_to_bool_number range]
  | ifNotNullish => rfl

theorem incSlow_double (range : Double.InInt32 n) (pushed : Option LRValue) :
    ∃ v, incSlow E s pushed (.float64 (.ofInt n)) = some (.slot pushed (.value v), s) ∧
      v.number? = some (.ofInt (n + 1)) := by
  have one : Double.InInt32 1 := by decide
  have sum : (Double.ofInt n).add (.ofInt 1) = .ofInt (n + 1) :=
    Double.add_ofInt range.exact one.exact
  refine ⟨.bcv_number ((Double.ofInt n).add (.ofInt 1)), rfl, ?_⟩
  rw [LRValue.number?_bcv_number, sum]

theorem incSlow_int (pushed : Option LRValue) :
    incSlow E s pushed (.int32 n) = some (.slot pushed (.value (.ofInt64 (n + 1))), s) :=
  rfl

theorem pushed_same (op : IncOp) :
    Option.Rel LRValue.Same (if op = .localDiscard then none else some (.int32 n))
      (if op = .localDiscard then none else some (.float64 (.ofInt n))) := by
  split
  · exact rel_none_none
  · exact rel_some_some.mpr LRValue.same_number

theorem wrapped_next (range : Double.InInt32 n) {v : LRValue}
    (number : v.number? = some (.ofInt (n + 1))) :
    (LRValue.int32 (castInt32 (n + 1))).Same v ↔ n ≠ 2147483647 := by
  have wrapped := inInt32_castInt32 (n + 1)
  have next : Double.Exact (n + 1) := by
    unfold Double.InInt32 at range
    unfold Double.Exact
    omega
  rw [LRValue.same_of_number? rfl number]
  constructor
  · rintro same rfl
    have equal := Double.same_ofInt_injective wrapped.exact next same
    rw [equal] at wrapped
    revert wrapped
    decide
  · intro below
    have range' : Double.InInt32 (n + 1) := by
      unfold Double.InInt32 at *
      omega
    rw [castInt32_of_inInt32 range']
    exact Or.inl rfl

theorem increment_alike (clean : s.error = none) (range : Double.InInt32 n) (op : IncOp) :
    E.Indistinct (op.exec E s (.int32 n)) (op.exec E s (.float64 (.ofInt n))) ↔
      (op ≠ .var false → n ≠ 2147483647) := by
  obtain ⟨v, slow, number⟩ := incSlow_double (E := E) (s := s) range
    (if op = .localDiscard then none else some (.float64 (.ofInt n)))
  have double : op.exec E s (.float64 (.ofInt n)) = incSlow E s
      (if op = .localDiscard then none else some (.float64 (.ofInt n))) (.float64 (.ofInt n)) := by
    cases op with
    | var hit => cases hit <;> rfl
    | _ => rfl
  rw [double, slow]
  by_cases miss : op = .var false
  · have exact_ : op.exec E s (.int32 n) = incSlow E s
        (if op = .localDiscard then none else some (.int32 n)) (.int32 n) := by
      rw [miss]
      rfl
    rw [exact_, incSlow_int, Engine.indistinct_some clean clean]
    refine iff_of_true ⟨pushed_same op, ?_⟩ fun other => absurd miss other
    change (LRValue.ofInt64 (n + 1)).Same v
    rw [LRValue.same_of_number? (number?_ofInt64 _) number]
    exact Or.inl rfl
  · have wraps : op.exec E s (.int32 n) =
        some (.slot (if op = .localDiscard then none else some (.int32 n))
          (.value (.int32 (castInt32 (n + 1)))), s) := by
      cases op with
      | var hit =>
        cases hit with
        | false => exact absurd rfl miss
        | true => rfl
      | _ => rfl
    rw [wraps, Engine.indistinct_some clean clean]
    refine (and_iff_right (pushed_same op)).trans ((wrapped_next range number).trans ?_)
    exact ⟨fun below _ => below, fun all => all miss⟩

theorem unaryOpcode_number (range : Double.InInt32 n) (op : UnOp) :
    unaryOpcode E s op (.float64 (.ofInt n)) = unaryOpcode E s op (.int32 n) := by
  cases op with
  | neg | pos | typeof | void => rfl
  | not => simp only [unaryOpcode, lr_to_bool_number range]
  | bitNot => simp only [unaryOpcode, lr_to_int32_number range]

theorem numberKey_int : numberKey E s (.int32 n) = some (toString n, s) :=
  lr_to_cstring_int32

theorem numberKey_number (range : Double.InInt32 n) :
    numberKey E s (.float64 (.ofInt n)) = some (toString n, s) :=
  (lr_to_cstring_number range).trans lr_to_cstring_int32

theorem toString_toNat (positive : 0 ≤ n) : toString n.toNat = toString n := by
  obtain ⟨k, rfl⟩ := Int.eq_ofNat_of_zero_le positive
  rfl

theorem indistinct_replied (clean : s.error = none) {x y : PropVM × Reply} :
    E.Indistinct (repliedVM s (some x)) (repliedVM s (some y)) ↔ x.2.Same y.2 := by
  have left : ({ s with heap := x.1.heap } : EngineState).error = none := clean
  have right : ({ s with heap := y.1.heap } : EngineState).error = none := clean
  exact Engine.indistinct_some left right

section Elements

variable {a : Addr} {o : LRObject} {atom : LRString}

section

variable (alive : s.heap.objs a = some o)
include alive

theorem getElem_hit {v : LRValue} (hit : caches.elemHit a o atom = some v) :
    (propVM s caches).getElem E.fuel a atom = some (propVM s caches, .value v) := by
  have here : (propVM s caches).obj a = some o := alive
  have cached : (propVM s caches).caches.elemHit a o atom = some v := hit
  simp [PropVM.getElem, here, cached]

theorem getElem_miss (miss : caches.elemHit a o atom = none) :
    ((propVM s caches).getElem E.fuel a atom).map Prod.snd =
      (lr_get_property E.fuel s.heap a atom).map Prod.snd := by
  have here : (propVM s caches).obj a = some o := alive
  have notCached : (propVM s caches).caches.elemHit a o atom = none := miss
  have sameHeap : (propVM s caches).heap = s.heap := rfl
  simp only [PropVM.getElem, here, notCached, sameHeap, bind_eq_bind, bind_some]
  cases lr_get_property E.fuel s.heap a atom with
  | none => rfl
  | some found =>
    obtain ⟨h, reply⟩ := found
    cases reply <;> rfl

theorem getIndex_dense {idx : Nat} {v : LRValue} (dense : o.element? idx = some v) :
    (propVM s caches).getIndex E.fuel a idx = some (propVM s caches, .value v) := by
  have here : (propVM s caches).obj a = some o := alive
  unfold element? at dense
  split at dense
  · next ad kind =>
      split at dense
      · next inside =>
          obtain rfl := some.inj dense
          simp only [getIndex, here, kind, bind_eq_bind, bind_some,
            if_pos inside]
      · cases dense
  · cases dense

theorem getIndex_sparse {idx : Nat} (sparse : o.element? idx = none) :
    ((propVM s caches).getIndex E.fuel a idx).map Prod.snd =
      (lr_get_property E.fuel s.heap a (s.heap.atom (toString idx))).map Prod.snd := by
  have here : (propVM s caches).obj a = some o := alive
  have sameHeap : (propVM s caches).heap = s.heap := rfl
  have engine (result : Option (Heap × Reply)) :
      ((propVM s caches).engine result).map Prod.snd = result.map Prod.snd := by
    cases result <;> rfl
  unfold element? at sparse
  split at sparse
  · next ad kind =>
      split at sparse
      · cases sparse
      · next outside =>
          have general : ¬ (idx < ad.length ∧ ad.elements idx ≠ .undefined) :=
            fun both => outside both.1
          simp only [getIndex, here, kind, bind_eq_bind, bind_some,
            if_neg outside, engine, sameHeap, lr_get_property_uint32, alive, if_neg general]
  · next notArray =>
      cases kind : o.type with
      | array data =>
        cases data with
        | none =>
          simp [getIndex, here, kind, engine, sameHeap, lr_get_property_uint32, alive]
        | some ad => exact absurd kind (notArray ad)
      | _ =>
        simp [getIndex, here, kind, engine, sameHeap, lr_get_property_uint32, alive]

end

/-- A dense element is read by its name, unless it is `undefined`. -/
theorem lr_get_property_dense {idx : Nat} {v : LRValue} (small : idx < 2 ^ 31)
    (alive : s.heap.objs a = some o) (dense : o.element? idx = some v) :
    lr_get_property E.fuel s.heap a (s.heap.atom (toString idx)) =
      if v = .undefined then slowGet E.fuel s.heap a o (s.heap.atom (toString idx))
      else some (s.heap, .value v) := by
  unfold LRObject.element? at dense
  split at dense
  · next ad kind =>
      split at dense
      · next inside =>
          obtain rfl := some.inj dense
          have notFast : fastGet o (s.heap.atom (toString idx)) = none := by
            simp [fastGet, LRObject.fastSlot, LRObject.small, kind, LRObjectType.isPlain]
          have index : lr_is_numeric_index (s.heap.atom (toString idx)) = some idx :=
            lr_is_numeric_index_toString small _
          have notLength : toString idx ≠ "length" := by
            intro same
            have word (addr : Addr) : lr_is_numeric_index ⟨"length", addr⟩ = none := by
              simp [lr_is_numeric_index, digit?]
            have noWord := word (s.heap.atom (toString idx)).addr
            rw [← same] at noWord
            exact absurd (index.symm.trans noWord) (by simp)
          have slow : ad.elements idx = .undefined →
              denseGet (some ad) (s.heap.atom (toString idx)) = none := by
            intro hole
            have filtered : (some idx).filter (fun i => i < ad.length ∧
                ad.elements i ≠ .undefined) = none := by
              simp [hole]
            simp only [denseGet, index, bind_eq_bind, bind_some, filtered]
            exact if_neg notLength
          have found : ad.elements idx ≠ .undefined →
              denseGet (some ad) (s.heap.atom (toString idx)) = some (ad.elements idx) := by
            intro written
            have filtered : (some idx).filter (fun i => i < ad.length ∧
                ad.elements i ≠ .undefined) = some idx := by
              simp [inside, written]
            simp only [denseGet, index, bind_eq_bind, bind_some, filtered]
          simp only [lr_get_property, alive, bind_eq_bind, bind_some, notFast, kind]
          by_cases hole : ad.elements idx = .undefined
          · rw [slow hole, if_pos hole]
          · rw [found hole, if_neg hole]
      · cases dense
  · cases dense

theorem indistinct_of_replies (clean : s.error = none) {x y : Option (PropVM × Reply)} :
    E.Indistinct (repliedVM s x) (repliedVM s y) ↔
      Option.Rel Reply.Same (x.map Prod.snd) (y.map Prod.snd) := by
  cases x with
  | none =>
    cases y with
    | none => exact iff_of_true rel_none_none rel_none_none
    | some q => exact iff_of_false not_rel_none_some not_rel_none_some
  | some p =>
    cases y with
    | none => exact iff_of_false not_rel_some_none not_rel_some_none
    | some q =>
      rw [map_some, map_some, rel_some_some]
      exact indistinct_replied clean

theorem relSame_refl (x : Option Reply) : Option.Rel Reply.Same x x := by
  cases x with
  | none => exact rel_none_none
  | some r => exact rel_some_some.mpr (Reply.Same.refl r)

theorem relSame_value {v : LRValue} {x : Option (Heap × Reply)} :
    Option.Rel Reply.Same (x.map Prod.snd) (some (.value v)) ↔
      ∃ h w, x = some (h, .value w) ∧ w.Same v := by
  cases x with
  | none => exact iff_of_false not_rel_none_some nofun
  | some found =>
    obtain ⟨h, reply⟩ := found
    rw [map_some, rel_some_some]
    constructor
    · intro same
      cases reply with
      | value w => exact ⟨h, w, rfl, same⟩
      | _ => cases same
    · rintro ⟨h', w, equal, same⟩
      cases equal
      exact same

theorem relSame_undefined {x : Option (Heap × Reply)} :
    Option.Rel Reply.Same (some (.value .undefined)) (x.map Prod.snd) ↔
      ∃ h, x = some (h, .value .undefined) := by
  cases x with
  | none => exact iff_of_false not_rel_some_none nofun
  | some found =>
    obtain ⟨h, reply⟩ := found
    rw [map_some, rel_some_some]
    constructor
    · intro same
      cases reply with
      | value w =>
        cases w <;> first | exact ⟨h, rfl⟩ | cases same
      | _ => cases same
    · rintro ⟨h', equal⟩
      cases equal
      exact Reply.Same.refl _

/-- The element reads agree exactly where the cache is current and an element that is
undefined has no property of its name. -/
theorem getElem_alike (clean : s.error = none) {idx : Nat} (small : idx < 2 ^ 31)
    (alive : s.heap.objs a = some o) :
    E.Indistinct (repliedVM s ((propVM s caches).getIndex E.fuel a idx))
        (repliedVM s ((propVM s caches).getElem E.fuel a (s.heap.atom (toString idx)))) ↔
      ReadAlike E s caches a o idx (s.heap.atom (toString idx)) := by
  rw [indistinct_of_replies clean]
  cases dense : o.element? idx with
  | none =>
    rw [getIndex_sparse alive dense]
    cases hit : caches.elemHit a o (s.heap.atom (toString idx)) with
    | none =>
      rw [getElem_miss alive hit]
      refine iff_of_true (relSame_refl _) ⟨fun _ v found => ?_, fun v found => ?_⟩
      · rw [hit] at found
        cases found
      · rw [dense] at found
        cases found
    | some w =>
      rw [getElem_hit alive hit]
      refine relSame_value.trans ⟨fun same => ⟨fun _ v found => ?_, fun v found => ?_⟩,
        fun alike => alike.remembered dense w hit⟩
      · rw [hit] at found
        cases found
        exact same
      · rw [dense] at found
        cases found
  | some v =>
    rw [getIndex_dense alive dense]
    have remembered : o.element? idx = none → ∀ w, caches.elemHit a o (s.heap.atom (toString idx)) =
        some w → ∃ h u, lr_get_property E.fuel s.heap a (s.heap.atom (toString idx)) =
          some (h, .value u) ∧ u.Same w := by
      intro sparse
      rw [dense] at sparse
      cases sparse
    cases hit : caches.elemHit a o (s.heap.atom (toString idx)) with
    | none =>
      rw [getElem_miss alive hit, lr_get_property_dense small alive dense]
      refine Iff.trans ?_ (b := v = .undefined →
        ∃ h, slowGet E.fuel s.heap a o (s.heap.atom (toString idx)) =
          some (h, .value .undefined)) ?_
      · by_cases undefined_ : v = .undefined
        · rw [if_pos undefined_, undefined_]
          refine Iff.trans ?_ (imp_iff_right rfl).symm
          exact relSame_undefined
        · rw [if_neg undefined_, map_some]
          exact iff_of_true (relSame_refl _) fun same => absurd same undefined_
      · refine ⟨fun undefined_ => ⟨remembered, fun u found => ?_⟩, fun alike => ?_⟩
        · rw [dense] at found
          cases found
          rw [hit]
          exact undefined_
        · have element := alike.element v dense
          rw [hit] at element
          exact element
    | some w =>
      rw [getElem_hit alive hit]
      refine rel_some_some.trans ⟨fun same => ⟨remembered, fun u found => ?_⟩,
        fun alike => ?_⟩
      · rw [dense] at found
        cases found
        rw [hit]
        exact same
      · have element := alike.element v dense
        rw [hit] at element
        exact element

theorem try_set_accessor_reply (receiver val : LRValue) (prop : LRProperty) :
    (prop.CallsSetter → ∃ func this args use,
      lr_property_try_set_accessor receiver prop val = some (.call func this args use)) ∧
    (¬ prop.CallsSetter → lr_property_try_set_accessor receiver prop val = none ∨
      lr_property_try_set_accessor receiver prop val = some (.status 0)) := by
  unfold lr_property_try_set_accessor LRProperty.CallsSetter
  constructor
  · rintro ⟨setter, callable⟩
    have accessor : prop.flags.accessor = true := by
      simp [LRPropFlags.accessor, setter]
    rw [if_pos accessor, if_pos ⟨setter, callable⟩]
    exact ⟨_, _, _, _, rfl⟩
  · intro notCalled
    split
    · exact Or.inr rfl
    · exact Or.inl rfl

/-- A store replies success exactly if no setter is called. -/
theorem storeProperty_reply {val : LRValue} {at_ : Addr} :
    Option.Rel Reply.Same (some (.status 0))
        ((storeProperty E.fuel s.heap a o atom val at_).map Prod.snd) ↔
      match o.find_own_prop atom with
      | some prop => ¬ prop.CallsSetter
      | none => ∃ found, protoFind s.heap atom E.fuel o.proto = some found ∧
          ∀ prop ∈ found, ¬ prop.CallsSetter := by
  have noCall {func this : LRValue} {args : List LRValue} {use : ResultUse} :
      ¬ Option.Rel Reply.Same (some (Reply.status 0)) (some (Reply.call func this args use)) := by
    intro same
    cases rel_some_some.mp same
  have done : Option.Rel Reply.Same (some (Reply.status 0)) (some (Reply.status 0)) :=
    relSame_refl _
  unfold storeProperty
  cases own : o.find_own_prop atom with
  | some prop =>
    dsimp only
    by_cases called : prop.CallsSetter
    · obtain ⟨func, this, args, use, reply⟩ := (try_set_accessor_reply
        (.object a) val prop).1 called
      rw [reply]
      exact iff_of_false noCall fun notCalled => notCalled called
    · rcases (try_set_accessor_reply (.object a) val prop).2 called with
        reply | reply
      · rw [reply]
        exact iff_of_true done called
      · rw [reply]
        exact iff_of_true done called
  | none =>
    cases walk : protoFind s.heap atom E.fuel o.proto with
    | none =>
      refine iff_of_false not_rel_some_none ?_
      rintro ⟨_, absent, -⟩
      cases absent
    | some found =>
      cases found with
      | none =>
        have quiet : ∃ found, some none = some found ∧
            ∀ prop ∈ found, ¬ LRProperty.CallsSetter prop := by
          refine ⟨none, rfl, ?_⟩
          intro prop member
          cases member
        exact iff_of_true done quiet
      | some prop =>
        by_cases called : prop.CallsSetter
        · obtain ⟨func, this, args, use, reply⟩ := (try_set_accessor_reply
            (.object a) val prop).1 called
          simp only [bind_eq_bind, bind_some, reply]
          refine iff_of_false noCall ?_
          rintro ⟨_, equal, all⟩
          cases equal
          exact all prop rfl called
        · have quiet : ∃ found, some (some prop) = some found ∧
              ∀ prop ∈ found, ¬ prop.CallsSetter := by
            refine ⟨some prop, rfl, ?_⟩
            rintro _ ⟨⟩
            exact called
          rcases (try_set_accessor_reply (.object a) val prop).2
            called with reply | reply
          · simp only [bind_eq_bind, bind_some, reply]
            exact iff_of_true done quiet
          · simp only [bind_eq_bind, bind_some, reply]
            exact iff_of_true done quiet

/-- The write by index and the write by name are alike exactly on the condition. -/
theorem setElem_alike (clean : s.error = none) {idx : Nat} {val : LRValue} {at_ : Addr}
    (alive : s.heap.objs a = some o) :
    E.Indistinct (repliedVM s ((propVM s caches).setIndex E.fuel a idx val at_))
        (repliedVM s ((propVM s caches).engine
          (lr_set_property E.fuel s.heap a (s.heap.atom (toString idx)) val at_))) ↔
      WriteAlike E s o (s.heap.atom (toString idx)) := by
  have here : (propVM s caches).obj a = some o := alive
  have sameHeap : (propVM s caches).heap = s.heap := rfl
  have engine (result : Option (Heap × Reply)) :
      ((propVM s caches).engine result).map Prod.snd = result.map Prod.snd := by
    cases result <;> rfl
  have general : (∀ ad, o.type ≠ .array (some ad)) →
      (propVM s caches).setIndex E.fuel a idx val at_ = (propVM s caches).engine
        (lr_set_property E.fuel s.heap a (s.heap.atom (toString idx)) val at_) := by
    intro notArray
    cases kind : o.type with
    | array data =>
      cases data with
      | none =>
        simp [setIndex, here, kind, sameHeap, lr_set_property_uint32, alive]
      | some ad => exact absurd kind (notArray ad)
    | _ =>
      simp [setIndex, here, kind, sameHeap, lr_set_property_uint32, alive]
  by_cases isArray : ∃ ad, o.type = .array (some ad)
  · obtain ⟨ad, kind⟩ := isArray
    have status : ((propVM s caches).setIndex E.fuel a idx val at_).map Prod.snd =
        some (.status 0) := by
      simp only [setIndex, here, kind, bind_eq_bind, bind_some]
      split
      · rfl
      · simp [engine, sameHeap, lr_set_property_uint32, alive, kind]
    have notFast : o.fastSlot (s.heap.atom (toString idx)) = none := by
      simp [fastSlot, small, kind, LRObjectType.isPlain]
    have store : lr_set_property E.fuel s.heap a (s.heap.atom (toString idx)) val at_ =
        storeProperty E.fuel s.heap a
          { o with type := .array (some (denseSet ad (s.heap.atom (toString idx)) val)) }
          (s.heap.atom (toString idx)) val at_ := by
      simp only [lr_set_property, alive, kind, notFast, bind_eq_bind, bind_some]
    rw [indistinct_of_replies clean, engine, status, store]
    refine storeProperty_reply.trans ?_
    unfold WriteAlike
    rw [kind]
    have sameOwn : find_own_prop
        { o with type := .array (some (denseSet ad (s.heap.atom (toString idx)) val)) }
        (s.heap.atom (toString idx)) = o.find_own_prop (s.heap.atom (toString idx)) := rfl
    rw [sameOwn]
    cases o.find_own_prop (s.heap.atom (toString idx)) <;> exact Iff.rfl
  · have notArray : ∀ ad, o.type ≠ .array (some ad) := fun ad kind => isArray ⟨ad, kind⟩
    rw [general notArray]
    refine iff_of_true (Engine.Indistinct.refl _) ?_
    unfold WriteAlike
    split
    · next kind _ => exact absurd kind (notArray _)
    · next kind _ => exact absurd kind (notArray _)
    · trivial

end Elements

theorem getElemNumber_int (positive : 0 ≤ n) (obj : LRValue) :
    getElemNumber E s caches obj (.int32 n) =
      match obj with
      | .object a => repliedVM s ((propVM s caches).getIndex E.fuel a n.toNat)
      | _ => repliedValue (E.lr_get_property_str s obj (toString n)) := by
  cases obj <;> simp only [getElemNumber, if_pos positive, toString_toNat positive]

theorem getElemNumber_double (range : Double.InInt32 n) (obj : LRValue) :
    getElemNumber E s caches obj (.float64 (.ofInt n)) =
      match obj with
      | .object a => repliedVM s ((propVM s caches).getElem E.fuel a (s.heap.atom (toString n)))
      | _ => repliedValue (E.lr_get_property_str s obj (toString n)) := by
  unfold getElemNumber
  rw [numberKey_number range]
  cases obj <;> rfl

theorem getElemNumber_negative (range : Double.InInt32 n) (below : ¬ 0 ≤ n) (obj : LRValue) :
    getElemNumber E s caches obj (.int32 n) =
      getElemNumber E s caches obj (.float64 (.ofInt n)) := by
  simp only [getElemNumber, numberKey_number range, numberKey_int, if_neg below]

theorem getElemNumber_alike (clean : s.error = none) (range : Double.InInt32 n) (obj : LRValue) :
    E.Indistinct (getElemNumber E s caches obj (.int32 n))
        (getElemNumber E s caches obj (.float64 (.ofInt n))) ↔
      (NumberUse.getElem obj).Alike E s caches n := by
  by_cases positive : 0 ≤ n
  · have small : n.toNat < 2 ^ 31 := by
      unfold Double.InInt32 at range
      omega
    rw [getElemNumber_int positive, getElemNumber_double range]
    cases obj with
    | object a =>
      cases alive : s.heap.objs a with
      | none =>
        have dangling : (propVM s caches).obj a = none := alive
        simp only [PropVM.getIndex, PropVM.getElem, dangling, bind_eq_bind,
          bind_none]
        refine iff_of_true (Engine.Indistinct.refl _) ?_
        intro _ o found
        rw [alive] at found
        cases found
      | some o =>
        rw [← toString_toNat positive]
        refine (getElem_alike clean small alive).trans ?_
        rw [toString_toNat positive]
        refine ⟨fun alike _ o' found => ?_, fun all => all positive o alive⟩
        rw [alive] at found
        cases found
        exact alike
    | _ => exact iff_of_true (Engine.Indistinct.refl _) trivial
  · rw [getElemNumber_negative range positive]
    refine iff_of_true (Engine.Indistinct.refl _) ?_
    cases obj with
    | object a => exact fun index => absurd index positive
    | _ => trivial

/-- A write by number does not tell the form of its index exactly on the condition. -/
theorem setElemNumber_alike (clean : s.error = none) (range : Double.InInt32 n)
    (obj val : LRValue) (at_ : Addr) :
    E.Indistinct (setElemNumber E s caches obj (.int32 n) val at_)
        (setElemNumber E s caches obj (.float64 (.ofInt n)) val at_) ↔
      (NumberUse.setElem obj val at_).Alike E s caches n := by
  cases obj with
  | object a =>
    have double : setElemNumber E s caches (.object a) (.float64 (.ofInt n)) val at_ =
        repliedVM s ((propVM s caches).engine
          (lr_set_property E.fuel s.heap a (s.heap.atom (toString n)) val at_)) := by
      simp only [setElemNumber, numberKey_number range]
      rfl
    by_cases positive : 0 ≤ n
    · have name := toString_toNat positive
      have int : setElemNumber E s caches (.object a) (.int32 n) val at_ =
          repliedVM s ((propVM s caches).setIndex E.fuel a n.toNat val at_) := by
        simp only [setElemNumber, if_pos positive]
      rw [int, double]
      cases alive : s.heap.objs a with
      | none =>
        have dangling : (propVM s caches).obj a = none := alive
        simp only [setIndex, dangling, lr_set_property, alive, bind_eq_bind,
          bind_none]
        refine iff_of_true (Engine.Indistinct.refl _) ?_
        intro _ o found
        rw [alive] at found
        cases found
      | some o =>
        rw [← name]
        refine (setElem_alike clean alive).trans ?_
        rw [name]
        refine ⟨fun alike _ o' found => ?_, fun all => all positive o alive⟩
        rw [alive] at found
        cases found
        exact alike
    · have same : setElemNumber E s caches (.object a) (.int32 n) val at_ =
          setElemNumber E s caches (.object a) (.float64 (.ofInt n)) val at_ := by
        simp only [setElemNumber, numberKey_number range, numberKey_int, if_neg positive]
      rw [same]
      exact iff_of_true (Engine.Indistinct.refl _) fun index => absurd index positive
  | _ => exact iff_of_true (Engine.Indistinct.refl _) trivial

/-- A use sees the same in both representations exactly where it is none of the exceptions. -/
theorem number_representation_iff
    (E : Engine) {s : EngineState} (clean : s.error = none) (caches : PropCaches)
    {n : Int} (range : Double.InInt32 n) (use : NumberUse) (other : use.OtherOperand)
    (emittedInt : use.Emitted (.int32 n)) (emittedFloat : use.Emitted (.float64 (.ofInt n))) :
    E.Indistinct (use.exec E s caches (.int32 n)) (use.exec E s caches (.float64 (.ofInt n))) ↔
      use.Alike E s caches n := by
  have always {x y : Option (Seen × EngineState)} (same : y = x) : E.Indistinct x y :=
    Engine.indistinct_of_eq same.symm
  cases use with
  | left form op b =>
    have inside (m : Int) (int : b = .int32 m) : Double.InInt32 m := by
      rw [int] at other
      exact other
    exact Engine.indistinct_computed.trans (left_alike clean range inside emittedInt)
  | right form op a =>
    have inside (m : Int) (int : a = .int32 m) : Double.InInt32 m := by
      rw [int] at other
      exact other
    exact Engine.indistinct_computed.trans (right_alike clean range inside emittedInt emittedFloat)
  | unary op =>
    refine iff_of_true (Engine.indistinct_computed.mpr ?_) trivial
    rw [unaryOpcode_number range]
    exact Engine.Agree.refl _
  | toString =>
    refine iff_of_true (always ?_) trivial
    simp only [NumberUse.exec, lr_to_cstring_number range]
  | toNumber => exact iff_of_true (always rfl) trivial
  | toBool =>
    refine iff_of_true (always ?_) trivial
    simp only [NumberUse.exec, lr_to_bool_number range]
  | toInt32 =>
    refine iff_of_true (always ?_) trivial
    simp only [NumberUse.exec, lr_to_int32_number range]
  | jump op =>
    refine iff_of_true (always ?_) trivial
    simp only [NumberUse.exec, taken_number range]
  | increment op => exact increment_alike clean range op
  | receiver name => exact iff_of_true (always rfl) trivial
  | elementKey =>
    refine iff_of_true (always ?_) trivial
    simp only [NumberUse.exec, numberKey_number range, numberKey_int]
  | getElem obj => exact getElemNumber_alike clean range obj
  | setElem obj val at_ => exact setElemNumber_alike clean range obj val at_

theorem number_representation_sum :
    Engine.bare.Indistinct
        ((NumberUse.left .opcode .add (.int32 3)).exec .bare .fresh .empty (.int32 2))
        ((NumberUse.left .opcode .add (.int32 3)).exec .bare .fresh .empty
          (.float64 (.ofInt 2))) ↔
      (NumberUse.left .opcode .add (.int32 3)).Alike .bare .fresh .empty 2 := by
  have two : Double.InInt32 2 := by decide
  have three : Double.InInt32 3 := by decide
  exact number_representation_iff .bare rfl .empty two (.left .opcode .add (.int32 3)) three
    trivial trivial

/-- `1 === 1` is false where one of the two is a double. -/
theorem strict_equality_distinguishes :
    ¬ Engine.bare.Indistinct
      ((NumberUse.left .opcode .strictEq (.int32 1)).exec .bare .fresh .empty (.int32 1))
      ((NumberUse.left .opcode .strictEq (.int32 1)).exec .bare .fresh .empty
        (.float64 (.ofInt 1))) := by
  have one : Double.InInt32 1 := by decide
  have equal : numberEq (.int32 1) (.int32 1) = true := Double.ceq_ofInt one.exact one.exact
  have carried : Form.opcode.Carries .strictEq (.int32 1) := trivial
  intro same
  have agree : Engine.bare.Agree
      (Form.opcode.exec .bare .fresh .strictEq (.int32 1) (.int32 1))
      (Form.opcode.exec .bare .fresh .strictEq (.float64 (.ofInt 1)) (.int32 1)) :=
    Engine.indistinct_computed.mp same
  have unequal : numberEq (.int32 1) (.int32 1) = false :=
    (left_alike rfl one (fun _ int => LRValue.int32.inj int ▸ one) carried).mp agree
  rw [equal] at unequal
  cases unequal

end LRJS
