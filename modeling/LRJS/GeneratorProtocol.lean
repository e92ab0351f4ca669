import LRJS.Generators

/-!
# The generator protocol

Running the body to its end by the first `next` answers the calls as a suspended execution
does, as long as the calls do not notice the difference: nothing that is sent or changed
between the calls matters, no `throw` is called, and no error, unused value of a statement or
value of `yield*` is met.
-/

namespace LRJS

open List Option
namespace Generators

variable {V W : Type} {undefined : V}

namespace Ending

def isReturn : Ending V → Bool
  | .returns _ => true
  | _ => false

def isThrow : Ending V → Bool
  | .throws _ => true
  | _ => false

/-- The value that `gen_next_cfunc` keeps for the end. -/
def ret (undefined : V) : Ending V → V
  | .finish value | .returns value => value
  | .throws _ => undefined

end Ending

/-- The values of a `yield*` over a string or an array. -/
def itemValues (world : W) (count : W → Nat) (item : Nat → W → V) (first : Nat) : List V :=
  (List.range' first (count world - first)).map fun i => item i world

def collect (undefined : V) (world : W) : Body V W → Nat → List V × Ending V
  | .finish value, _ => ([], .finish value)
  | .returns value, _ => ([], .returns value)
  | .throws exception, _ => ([], .throws exception)
  | .yield value resume, depth =>
    let rest := collect undefined world (resume (.next undefined) world) depth
    (value :: rest.1, rest.2)
  | .yieldItems count item first next, depth =>
    if maxDepth ≤ depth then
      ([], .throws undefined)
    else
      let rest := collect undefined world (next undefined world) depth
      (itemValues world count item first ++ rest.1, rest.2)
  | .yieldString text string next, depth =>
    if maxDepth ≤ depth then
      ([], .throws undefined)
    else
      let rest := collect undefined world (next undefined world) depth
      (byteValues text string ++ rest.1, rest.2)
  | .yieldFrom start next, depth =>
    if maxDepth ≤ depth then
      ([], .throws undefined)
    else
      let inner := collect undefined world (start world) (depth + 1)
      let rest := collect undefined world (next undefined world) depth
      (inner.1 ++ rest.1, rest.2)

structure Kept (s s₁ : Interp V) : Prop where
  scope : s₁.current_scope = s.current_scope
  active : s₁.gen_active = s.gen_active
  breaks : s₁.break_target = s.break_target
  continues : s₁.continue_target = s.continue_target
  depth : s₁.gen_delegate_depth = s.gen_delegate_depth

theorem Kept.refl (s : Interp V) : Kept s s :=
  ⟨rfl, rfl, rfl, rfl, rfl⟩

variable {s₁ : Interp V}

theorem Kept.trans {s s₂ : Interp V} (first : Kept s s₁) (second : Kept s₁ s₂) : Kept s s₂ :=
  ⟨second.scope.trans first.scope, second.active.trans first.active,
    second.breaks.trans first.breaks, second.continues.trans first.continues,
    second.depth.trans first.depth⟩

structure Appended (values : List V) (s s₁ : Interp V) : Prop where
  kept : Kept s s₁
  items : s₁.gen_items = s.gen_items ++ values
  count : s₁.gen_count = s.gen_count + values.length
  returned : s₁.has_returned = s.has_returned
  error : s₁.error_flag = s.error_flag

theorem Appended.trans {first second : List V} {s s₂ : Interp V} (before : Appended first s s₁)
    (after : Appended second s₁ s₂) : Appended (first ++ second) s s₂ := by
  refine ⟨before.kept.trans after.kept, ?_, ?_, after.returned.trans before.returned,
    after.error.trans before.error⟩
  · rw [after.items, before.items, append_assoc]
  · rw [after.count, before.count, length_append, Nat.add_assoc]

variable {s : Interp V}

theorem Appended.out_of {values : List V}
    (inner : Appended values { s with gen_delegate_depth := s.gen_delegate_depth + 1 } s₁) :
    Appended values s { s₁ with gen_delegate_depth := s₁.gen_delegate_depth - 1 } := by
  refine ⟨⟨inner.kept.scope, inner.kept.active, inner.kept.breaks, inner.kept.continues, ?_⟩,
    inner.items, inner.count, inner.returned, inner.error⟩
  rw [inner.kept.depth]
  exact Nat.add_sub_cancel _ _

theorem append_appended (s : Interp V) (value : V) : Appended [value] s (s.append value) :=
  ⟨⟨rfl, rfl, rfl, rfl, rfl⟩, rfl, rfl, rfl, rfl⟩

theorem appendAll_appended (s : Interp V) (values : List V) :
    Appended values s (values.foldl Interp.append s) := by
  induction values generalizing s with
  | nil => exact ⟨⟨rfl, rfl, rfl, rfl, rfl⟩, (append_nil _).symm, rfl, rfl, rfl⟩
  | cons value values ih => exact (append_appended s value).trans (ih (s.append value))

structure Evaluated (undefined : V) (collected : List V × Ending V) (s : Interp V)
    (out : V × Interp V) : Prop where
  kept : Kept s out.2
  items : out.2.gen_items = s.gen_items ++ collected.1
  count : out.2.gen_count = s.gen_count + collected.1.length
  returned : out.2.has_returned = collected.2.isReturn
  error : out.2.error_flag = collected.2.isThrow
  ret : (if out.2.has_returned then out.2.return_value else out.1) = collected.2.ret undefined

variable {collected : List V × Ending V}

theorem Evaluated.after {first : List V} {out : V × Interp V} (before : Appended first s s₁)
    (evaluated : Evaluated undefined collected s₁ out) :
    Evaluated undefined (first ++ collected.1, collected.2) s out := by
  refine ⟨before.kept.trans evaluated.kept, ?_, ?_, evaluated.returned, evaluated.error,
    evaluated.ret⟩
  · rw [evaluated.items, before.items, append_assoc]
  · rw [evaluated.count, before.count, length_append, Nat.add_assoc]

theorem raise_evaluated {exception : V} (s : Interp V) (returned : s.has_returned = false) :
    Evaluated undefined ([], .throws exception) s (undefined, s.raise) := by
  refine ⟨⟨rfl, rfl, rfl, rfl, rfl⟩, (append_nil _).symm, rfl, returned, rfl, ?_⟩
  simp [Interp.raise, returned, Ending.ret]

structure Filled (collected : List V × Ending V) (undefined : V) (gd : GenData V W) : Prop where
  items : gd.items = collected.1
  count : gd.count = collected.1.length
  ret : gd.ret = collected.2.ret undefined

theorem Filled.drain_more {gd : GenData V W}
    (filled : Filled collected undefined gd) {value : V} {rest : List V}
    (next : collected.1.drop gd.idx = value :: rest) :
    gd.drain undefined = (.result value false, { gd with idx := gd.idx + 1 }) := by
  have inside : gd.idx < collected.1.length := by
    by_contra outside
    rw [drop_eq_nil_of_le (by omega)] at next
    cases next
  have first : collected.1[gd.idx]? = some value := by
    rw [← head?_drop, next, head?_cons]
  unfold GenData.drain
  rw [filled.count, filled.items, if_pos inside, getD_eq_getElem?_getD, first,
    getD_some]

theorem Filled.drain_end {gd : GenData V W}
    (filled : Filled collected undefined gd) (empty : collected.1.drop gd.idx = []) :
    gd.drain undefined = (.result (collected.2.ret undefined) true, { gd with done := true }) := by
  have outside : ¬ gd.idx < collected.1.length := by
    have := List.drop_eq_nil_iff.mp empty
    omega
  unfold GenData.drain
  rw [filled.count, if_neg outside, filled.ret]

structure Unstarted (gd : GenData V W) : Prop where
  running : gd.done = false
  count : gd.count = 0
  items : gd.items = []
  idx : gd.idx = 0

theorem build_unstarted (body : W → Body V W) (scope : Nat) :
    Unstarted (GenData.build undefined body scope) :=
  ⟨rfl, rfl, rfl, rfl⟩

variable {run : Interp V → V × Interp V}

/-- The first `next` runs the body and hands out what it collected. -/
theorem gen_next_first {gd : GenData V W} (fresh : Unstarted gd) (calm : s.error_flag = false)
    (evaluated : Evaluated undefined collected (s.enter gd) (run (s.enter gd))) :
    ∃ filled s', gen_next undefined run gd s =
        ((filled.drain undefined).1, (filled.drain undefined).2, s') ∧
      Filled collected undefined filled ∧ filled.idx = 0 ∧ filled.done = false ∧
      Appended [] s s' := by
  obtain ⟨running, count, items, idx⟩ := fresh
  obtain ⟨kept, values, total, returned, error, ret⟩ := evaluated
  have first : gen_next undefined run gd s = ((GenData.drain undefined { gd with
      ret := if (run (s.enter gd)).2.has_returned then (run (s.enter gd)).2.return_value
        else (run (s.enter gd)).1
      items := (run (s.enter gd)).2.gen_items
      count := (run (s.enter gd)).2.gen_count }).1, (GenData.drain undefined { gd with
      ret := if (run (s.enter gd)).2.has_returned then (run (s.enter gd)).2.return_value
        else (run (s.enter gd)).1
      items := (run (s.enter gd)).2.gen_items
      count := (run (s.enter gd)).2.gen_count }).2, s.leave (run (s.enter gd)).2) := by
    simp [gen_next, running, count]
  refine ⟨_, _, first, ⟨?_, ?_, ret⟩, idx, running, ?_, ?_, ?_, ?_, ?_⟩
  · rw [values]
    simp [Interp.enter, items]
  · rw [total]
    simp [Interp.enter, count]
  · exact ⟨rfl, rfl, kept.breaks, kept.continues, kept.depth⟩
  · exact (append_nil _).symm
  · rfl
  · rfl
  · exact calm.symm

theorem gen_next_later {gd : GenData V W} (running : gd.done = false) (some_items : 0 < gd.count) :
    gen_next undefined run gd s = ((gd.drain undefined).1, (gd.drain undefined).2, s) := by
  simp [gen_next, running, some_items]

theorem delegateRest_appended (calls : Nat) {gd : GenData V W} {rest : List V}
    (filled : Filled collected undefined gd) (running : gd.done = false)
    (some_items : 0 < gd.count) (left : collected.1.drop gd.idx = rest)
    (enough : rest.length ≤ calls) : Appended rest s (delegateRest undefined run calls gd s) := by
  induction calls generalizing gd s rest with
  | zero =>
    cases rest with
    | nil => exact ⟨⟨rfl, rfl, rfl, rfl, rfl⟩, (append_nil _).symm, rfl, rfl, rfl⟩
    | cons value rest => cases enough
  | succ calls ih =>
    unfold delegateRest
    rw [gen_next_later running some_items]
    cases rest with
    | nil =>
      rw [filled.drain_end left]
      exact ⟨⟨rfl, rfl, rfl, rfl, rfl⟩, (append_nil _).symm, rfl, rfl, rfl⟩
    | cons value rest =>
      rw [filled.drain_more left]
      have after : collected.1.drop (gd.idx + 1) = rest := by
        rw [← drop_drop, left, drop_one, tail_cons]
      have later : Filled collected undefined { gd with idx := gd.idx + 1 } :=
        ⟨filled.items, filled.count, filled.ret⟩
      refine (append_appended s value).trans ?_
      exact ih later running some_items after (Nat.le_of_succ_le_succ enough)

/-- A delegation appends the values that the other generator collected. -/
theorem delegateTo_appended {gd : GenData V W} (fresh : Unstarted gd)
    (calm : s.error_flag = false)
    (evaluated : Evaluated undefined collected (s.enter gd) (run (s.enter gd))) :
    Appended collected.1 s (delegateTo undefined run gd s) := by
  obtain ⟨filled, s', first, full, idx, running, appended⟩ := gen_next_first fresh calm evaluated
  unfold delegateTo
  rw [first]
  cases values : collected.1 with
  | nil =>
    rw [full.drain_end (by rw [values, drop_nil])]
    exact appended
  | cons value rest =>
    have next : collected.1.drop filled.idx = value :: rest := by
      rw [idx, drop_zero, values]
    rw [full.drain_more next]
    have count : filled.count = rest.length + 1 := by
      rw [full.count, values, length_cons]
    have later : Filled collected undefined { filled with idx := filled.idx + 1 } :=
      ⟨full.items, full.count, full.ret⟩
    have left : collected.1.drop (filled.idx + 1) = rest := by
      rw [← drop_drop, next, drop_one, tail_cons]
    refine appended.trans ((append_appended s' value).trans ?_)
    apply delegateRest_appended filled.count later running _ left
    · rw [count]
      exact Nat.le_succ _
    · change 0 < filled.count
      rw [count]
      exact Nat.succ_pos _

variable (undefined) in
/-- The tree-walker collects the values of the yields in order. -/
theorem evalBody_evaluated (world : W) (body : Body V W) (s : Interp V)
    (returned : s.has_returned = false) (calm : s.error_flag = false) :
    Evaluated undefined (collect undefined world body s.gen_delegate_depth) s
      (evalBody undefined world body s) := by
  induction body generalizing s with
  | finish value =>
    refine ⟨Kept.refl s, (append_nil _).symm, rfl, returned, calm, ?_⟩
    simp [evalBody, returned, collect, Ending.ret]
  | returns value =>
    exact ⟨⟨rfl, rfl, rfl, rfl, rfl⟩, (append_nil _).symm, rfl, rfl, calm, rfl⟩
  | throws exception =>
    exact raise_evaluated s returned
  | yield value resume ih =>
    have rest := ih (.next undefined) world (s.append value) returned calm
    exact rest.after (append_appended s value)
  | yieldItems count item first next ih =>
    unfold collect evalBody
    by_cases deep : maxDepth ≤ s.gen_delegate_depth
    · rw [if_pos deep, if_pos deep]
      exact raise_evaluated s returned
    · rw [if_neg deep, if_neg deep]
      have appended := appendAll_appended s (itemValues world count item first)
      have rest := ih undefined world _ (appended.returned.trans returned)
        (appended.error.trans calm)
      rw [appended.kept.depth] at rest
      exact rest.after appended
  | yieldString text string next ih =>
    unfold collect evalBody
    by_cases deep : maxDepth ≤ s.gen_delegate_depth
    · rw [if_pos deep, if_pos deep]
      exact raise_evaluated s returned
    · rw [if_neg deep, if_neg deep]
      have appended := appendAll_appended s (byteValues text string)
      have rest := ih undefined world _ (appended.returned.trans returned)
        (appended.error.trans calm)
      rw [appended.kept.depth] at rest
      exact rest.after appended
  | yieldFrom start next ihStart ihNext =>
    unfold collect evalBody
    by_cases deep : maxDepth ≤ s.gen_delegate_depth
    · rw [if_pos deep, if_pos deep]
      exact raise_evaluated s returned
    · rw [if_neg deep, if_neg deep]
      let deeper : Interp V := { s with gen_delegate_depth := s.gen_delegate_depth + 1 }
      let inner : GenData V W := GenData.build undefined start s.current_scope
      let collected := collect undefined world (start world) (s.gen_delegate_depth + 1)
      have started : Evaluated undefined collected (deeper.enter inner)
          (evalBody undefined world (start world) (deeper.enter inner)) :=
        ihStart world (deeper.enter inner) rfl calm
      have delegated : Appended collected.1 deeper
          (delegateTo undefined (evalBody undefined world (start world)) inner deeper) :=
        delegateTo_appended (build_unstarted start s.current_scope) calm started
      have appended := delegated.out_of
      have rest := ihNext undefined world _ (appended.returned.trans returned)
        (appended.error.trans calm)
      rw [appended.kept.depth] at rest
      exact rest.after appended

def OneByte (char : Char) : Prop :=
  0 < char.val.toNat ∧ char.val.toNat ≤ 127

theorem byteValues_cons {char : Char} (one : OneByte char) (text : List Char)
    (string : List UInt8 → V) :
    byteValues (char :: text) string =
      string (String.utf8EncodeChar char) :: byteValues text string := by
  have bytes : String.utf8EncodeChar char = [char.val.toNat.toUInt8] := by
    unfold String.utf8EncodeChar
    rw [if_pos one.2]
  have small : char.val.toNat < 256 := by
    have := one.2
    omega
  have nonzero : char.val.toNat.toUInt8 ≠ 0 := by
    intro zero
    have same : char.val.toNat % 256 = 0 := congrArg UInt8.toNat zero
    rw [Nat.mod_eq_of_lt small] at same
    exact absurd same (Nat.pos_iff_ne_zero.mp one.1)
  unfold byteValues
  rw [flatMap_cons, bytes, singleton_append, takeWhile_cons_of_pos (by simpa)]
  rfl

/-- Up to its next yield, a body meets no delegation that `gen_delegate` treats differently: too
deep, of a string with other characters, ended by an error, or with its value used. -/
def Plain (undefined : V) (world : W) : Body V W → Nat → Prop
  | .finish _, _ | .returns _, _ | .throws _, _ | .yield _ _, _ => True
  | .yieldItems count _ first next, depth =>
    depth < maxDepth ∧
      (first < count world ∨ Plain undefined world (next undefined world) depth)
  | .yieldString text _ next, depth =>
    depth < maxDepth ∧ (∀ char ∈ text, OneByte char) ∧
      (text ≠ [] ∨ Plain undefined world (next undefined world) depth)
  | .yieldFrom start next, depth =>
    depth < maxDepth ∧ Plain undefined world (start world) (depth + 1) ∧
      match stretch undefined world (start world) with
      | .yields _ _ => True
      | .ended (.finish _) => Plain undefined world (next undefined world) depth
      | .ended (.returns value) =>
        next value world = next undefined world ∧
          Plain undefined world (next undefined world) depth
      | .ended (.throws _) => False

def Stretch.Begins (undefined : V) (world : W) (depth : Nat) (collected : List V × Ending V) :
    Stretch V W → Prop
  | .yields value resume =>
    collected = (value :: (collect undefined world (resume (.next undefined) world) depth).1,
      (collect undefined world (resume (.next undefined) world) depth).2)
  | .ended ending => collected = ([], ending)

theorem itemValues_more {world : W} {count : W → Nat} {item : Nat → W → V} {first : Nat}
    (more : first < count world) :
    itemValues world count item first =
      item first world :: itemValues world count item (first + 1) := by
  have size : count world - first = count world - (first + 1) + 1 := by omega
  unfold itemValues
  rw [size, range'_succ, map_cons]

theorem itemValues_none {world : W} {count : W → Nat} {item : Nat → W → V} {first : Nat}
    (none_left : ¬ first < count world) : itemValues world count item first = [] := by
  have size : count world - first = 0 := by omega
  unfold itemValues
  rw [size, range'_zero, map_nil]

/-- The stretch up to a yield begins what the whole body collects. -/
theorem stretch_begins (world : W) (body : Body V W) (depth : Nat)
    (plain : Plain undefined world body depth) :
    (stretch undefined world body).Begins undefined world depth
      (collect undefined world body depth) := by
  induction body generalizing depth with
  | finish value | returns value | throws exception | yield value resume ih => rfl
  | yieldItems count item first next ih =>
    have shallow : ¬ maxDepth ≤ depth := Nat.not_le.mpr plain.1
    unfold stretch collect
    rw [if_neg shallow]
    by_cases more : first < count world
    · rw [if_pos more]
      simp only [Stretch.Begins, collect, if_neg shallow, itemValues_more more,
        cons_append]
    · rw [if_neg more, itemValues_none more]
      exact ih undefined world depth (plain.2.resolve_left more)
  | yieldString text string next ih =>
    have shallow : ¬ maxDepth ≤ depth := Nat.not_le.mpr plain.1
    unfold collect
    rw [if_neg shallow]
    cases text with
    | nil => exact ih undefined world depth (plain.2.2.resolve_left (fun some => some rfl))
    | cons char text =>
      rw [byteValues_cons (plain.2.1 char mem_cons_self)]
      simp only [stretch, Stretch.Begins, collect, if_neg shallow, cons_append]
  | yieldFrom start next ihStart ihNext =>
    obtain ⟨within, inside, after⟩ := plain
    have shallow : ¬ maxDepth ≤ depth := Nat.not_le.mpr within
    have begins := ihStart world (depth + 1) inside
    unfold stretch collect
    rw [if_neg shallow]
    cases inner : stretch undefined world (start world) with
    | yields value resume =>
      rw [inner] at begins
      simp only [Stretch.Begins] at begins
      simp only [Stretch.Begins, collect, if_neg shallow, begins, cons_append]
    | ended ending =>
      rw [inner] at begins after
      cases ending with
      | finish value =>
        rw [begins]
        exact ihNext undefined world depth after
      | returns value =>
        have rest := ihNext undefined world depth after.2
        rw [begins]
        rw [← after.1] at rest ⊢
        exact rest
      | throws exception => exact after.elim

/-- The end of a stretch is answered as in a suspended execution: it is no error, and the last
statement has no value. -/
def Stretch.EndsWell (undefined : V) : Stretch V W → Prop
  | .yields _ _ | .ended (.returns _) => True
  | .ended (.finish value) => value = undefined
  | .ended (.throws _) => False

/-- The call does not notice that the body has run: a resumed body goes on as it did with nothing
sent, in the world of the first call, and is left by a `return`. -/
def Unnoticed (undefined : V) (depth : Nat) (world : W) : Call V → Status V W → Prop
  | .throw _, _ => False
  | _, .finished | .return _, .fresh _ => True
  | .next _, .fresh body =>
    Plain undefined world (body world) depth ∧
      (stretch undefined world (body world)).EndsWell undefined
  | .next value, .suspended begun resume =>
    stretch undefined world (resume (.next value) world) =
        stretch undefined begun (resume (.next undefined) begun) ∧
      Plain undefined begun (resume (.next undefined) begun) depth ∧
      (stretch undefined begun (resume (.next undefined) begun)).EndsWell undefined
  | .return value, .suspended _ resume =>
    stretch undefined world (resume (.return value) world) = .ended (.returns value)

def RunUnnoticed (undefined : V) (depth : Nat) : (Nat → Status V W) → List (Event V W) → Prop
  | _, [] => True
  | objects, event :: events =>
    let status := objects event.object
    Unnoticed undefined depth event.world event.call status ∧
      RunUnnoticed undefined depth
        (Function.update objects event.object (status.call undefined event.world event.call).2)
        events

inductive Follows (undefined : V) (depth : Nat) : Status V W → GenData V W → Prop
  | fresh {gd} (unstarted : Unstarted gd) : Follows undefined depth (.fresh gd.body) gd
  | suspended {gd begun resume collected} (filled : Filled collected undefined gd)
      (running : gd.done = false) (some_items : 0 < gd.count)
      (left : (collected.1.drop gd.idx, collected.2) =
        collect undefined begun (resume (.next undefined) begun) depth) :
      Follows undefined depth (.suspended begun resume) gd
  | finished {gd} (done : gd.done = true) : Follows undefined depth .finished gd

/-- Handing out a collected value follows the meant status. -/
theorem drain_follows {depth : Nat} {begun : W} {body : Body V W} {gd : GenData V W}
    (filled : Filled collected undefined gd)
    (running : gd.done = false)
    (left : (collected.1.drop gd.idx, collected.2) = collect undefined begun body depth)
    (plain : Plain undefined begun body depth)
    (ends : (stretch undefined begun body).EndsWell undefined) :
    (gd.drain undefined).1 = (answer undefined begun (stretch undefined begun body)).1 ∧
      Follows undefined depth (answer undefined begun (stretch undefined begun body)).2
        (gd.drain undefined).2 := by
  have begins := stretch_begins begun body depth plain
  rw [← left] at begins
  cases next : stretch undefined begun body with
  | yields value resume =>
    rw [next] at begins
    obtain ⟨items, ending⟩ := Prod.mk.inj begins
    rw [filled.drain_more items]
    have some_items : 0 < gd.count := by
      rw [filled.count]
      by_contra none
      rw [drop_eq_nil_of_le (by omega)] at items
      cases items
    have rest : collected.1.drop (gd.idx + 1) =
        (collect undefined begun (resume (.next undefined) begun) depth).1 := by
      rw [← drop_drop, items, drop_one, tail_cons]
    have later : Filled collected undefined { gd with idx := gd.idx + 1 } :=
      ⟨filled.items, filled.count, filled.ret⟩
    exact ⟨rfl, .suspended later running some_items (Prod.ext rest ending)⟩
  | ended ending =>
    rw [next] at begins ends
    obtain ⟨items, same⟩ := Prod.mk.inj begins
    rw [filled.drain_end items, same]
    cases ending with
    | finish value =>
      rw [show value = undefined from ends]
      exact ⟨rfl, .finished rfl⟩
    | returns value => exact ⟨rfl, .finished rfl⟩
    | throws exception => exact ends.elim

variable (undefined) in
theorem gen_next_unstarted (world : W) {gd : GenData V W} (fresh : Unstarted gd)
    (calm : s.error_flag = false) :
    ∃ filled s', gen_next undefined (evalBody undefined world (gd.body world)) gd s =
        ((filled.drain undefined).1, (filled.drain undefined).2, s') ∧
      Filled (collect undefined world (gd.body world) s.gen_delegate_depth) undefined filled ∧
      filled.idx = 0 ∧ filled.done = false ∧ Appended [] s s' :=
  gen_next_first fresh calm
    (evalBody_evaluated undefined world (gd.body world) (s.enter gd) rfl calm)

theorem appended_none (s : Interp V) : Appended [] s s :=
  ⟨Kept.refl s, (append_nil _).symm, rfl, rfl, rfl⟩

theorem invoke_appended (world : W) (gd : GenData V W) (call : Call V)
    (calm : s.error_flag = false) : Appended [] s (invoke undefined world gd s call).2.2 := by
  cases call with
  | next value =>
    change Appended [] s (gen_next undefined (evalBody undefined world (gd.body world)) gd s).2.2
    unfold gen_next
    by_cases done : gd.done = true
    · rw [if_pos done]
      exact appended_none s
    by_cases some_items : 0 < gd.count
    · rw [if_neg done, if_pos some_items]
      exact appended_none s
    · rw [if_neg done, if_neg some_items]
      have kept := (evalBody_evaluated undefined world (gd.body world)
        (s.enter gd) rfl calm).kept
      exact ⟨⟨rfl, rfl, kept.breaks, kept.continues, kept.depth⟩, (append_nil _).symm, rfl,
        rfl, calm.symm⟩
  | «return» value | throw exception => exact appended_none s

/-- A call that the condition does not exclude replies as meant, and the status follows. -/
theorem invoke_follows {world : W} {status : Status V W} {gd : GenData V W} {call : Call V}
    (calm : s.error_flag = false) (follows : Follows undefined s.gen_delegate_depth status gd)
    (unnoticed : Unnoticed undefined s.gen_delegate_depth world call status) :
    (invoke undefined world gd s call).1 = (status.call undefined world call).1 ∧
      Follows undefined s.gen_delegate_depth (status.call undefined world call).2
        (invoke undefined world gd s call).2.1 := by
  cases call with
  | throw exception => exact (show False from unnoticed).elim
  | next value =>
    cases follows with
    | fresh unstarted =>
      obtain ⟨filled, s', first, full, start, running, _⟩ :=
        gen_next_unstarted undefined world unstarted calm
      simp only [invoke, first]
      have left : ((collect undefined world (gd.body world) s.gen_delegate_depth).1.drop
          filled.idx, (collect undefined world (gd.body world) s.gen_delegate_depth).2) =
          collect undefined world (gd.body world) s.gen_delegate_depth := by
        rw [start, drop_zero]
      exact drain_follows full running left unnoticed.1 unnoticed.2
    | suspended filled running some_items left =>
      obtain ⟨same, plain, ends⟩ := unnoticed
      simp only [invoke, gen_next_later running some_items, Status.call, Call.resumption, same]
      exact drain_follows filled running left plain ends
    | finished done =>
      simp only [invoke, gen_next, done, if_true]
      exact ⟨rfl, .finished done⟩
  | «return» value =>
    cases follows with
    | fresh unstarted => exact ⟨rfl, .finished rfl⟩
    | suspended filled running some_items left =>
      simp only [Status.call, Call.resumption,
        show stretch undefined world _ = .ended (.returns value) from unnoticed]
      exact ⟨rfl, .finished rfl⟩
    | finished done => exact ⟨rfl, .finished rfl⟩

theorem step_follows {m : Machine V W} {objects : Nat → Status V W} {event : Event V W}
    (calm : m.interp.error_flag = false)
    (follows : ∀ object, Follows undefined m.interp.gen_delegate_depth (objects object)
      (m.objects object))
    (unnoticed : Unnoticed undefined m.interp.gen_delegate_depth event.world event.call
      (objects event.object)) (object : Nat) :
    Follows undefined m.interp.gen_delegate_depth
      (Function.update objects event.object
        ((objects event.object).call undefined event.world event.call).2 object)
      ((m.step undefined event).2.objects object) := by
  have after := (invoke_follows calm (follows event.object) unnoticed).2
  change Follows undefined m.interp.gen_delegate_depth _ (Function.update m.objects event.object
    (invoke undefined event.world (m.objects event.object) m.interp event.call).2.1 object)
  by_cases same : object = event.object
  · rw [same, Function.update_self, Function.update_self]
    exact after
  · rw [Function.update_of_ne same, Function.update_of_ne same]
    exact follows object

variable (undefined) in
theorem step_appended (m : Machine V W) (event : Event V W) (calm : m.interp.error_flag = false) :
    Appended [] m.interp (m.step undefined event).2.interp :=
  invoke_appended event.world (m.objects event.object) event.call calm

theorem run_appended (m : Machine V W) (events : List (Event V W))
    (calm : m.interp.error_flag = false) :
    Appended [] m.interp (m.run undefined events).2.interp := by
  induction events generalizing m with
  | nil => exact appended_none m.interp
  | cons event events ih =>
    have first := step_appended undefined m event calm
    exact first.trans (ih (m.step undefined event).2 (first.error.trans calm))

/-- A run of calls that the condition does not exclude has the replies that are meant. -/
theorem run_follows (m : Machine V W) (objects : Nat → Status V W) (events : List (Event V W))
    (calm : m.interp.error_flag = false)
    (follows : ∀ object, Follows undefined m.interp.gen_delegate_depth (objects object)
      (m.objects object))
    (unnoticed : RunUnnoticed undefined m.interp.gen_delegate_depth objects events) :
    (m.run undefined events).1 = runSuspended undefined objects events := by
  induction events generalizing m objects with
  | nil => rfl
  | cons event events ih =>
    obtain ⟨here, later⟩ := unnoticed
    have first := step_appended undefined m event calm
    have reply := (invoke_follows calm (follows event.object) here).1
    have after := step_follows calm follows here
    have depth := first.kept.depth
    rw [← depth] at after later
    have rest := ih (m.step undefined event).2 _ (first.error.trans calm) after later
    change _ :: (Machine.run undefined (m.step undefined event).2 events).1 = _ :: _
    rw [rest]
    exact congrArg (· :: _) reply

def Machine.start (undefined : V) (interp : Interp V) (bodies : Nat → W → Body V W)
    (scopes : Nat → Nat) : Machine V W :=
  ⟨interp, fun object => GenData.build undefined (bodies object) (scopes object)⟩

/-- The interpreter's scope, generator and jump state is left as it was, and where no call notices
that the bodies have run, the replies are those of suspended bodies. -/
theorem replies_of_suspension (interp : Interp V) (bodies : Nat → W → Body V W)
    (scopes : Nat → Nat) (events : List (Event V W)) (calm : interp.error_flag = false) :
    Appended [] interp
        ((Machine.start undefined interp bodies scopes).run undefined events).2.interp ∧
      (RunUnnoticed undefined interp.gen_delegate_depth (fun object => .fresh (bodies object))
          events →
        ((Machine.start undefined interp bodies scopes).run undefined events).1 =
          runSuspended undefined (fun object => .fresh (bodies object)) events) := by
  refine ⟨run_appended (Machine.start undefined interp bodies scopes) events calm, ?_⟩
  intro unnoticed
  have follows : ∀ object, Follows undefined interp.gen_delegate_depth (.fresh (bodies object))
      (GenData.build undefined (bodies object) (scopes object)) := by
    intro object
    exact .fresh (build_unstarted (bodies object) (scopes object))
  exact run_follows (Machine.start undefined interp bodies scopes) _ events calm follows unnoticed

def idleInterp : Interp Nat :=
  { current_scope := 0, gen_active := false, gen_items := [], gen_count := 0,
    has_returned := false, return_value := 0, break_target := false, continue_target := false,
    error_flag := false, exception_pending := false, gen_delegate_depth := 0 }

/-- A generator that yields 1 and throws 2, and one that delegates to the array `[1, 2]`. -/
def yieldThenThrow : Unit → Body Nat Unit :=
  fun _ => .yield 1 fun _ _ => .throws 2

def delegateTwo : Unit → Body Nat Unit :=
  fun _ => .yieldItems (fun _ => 2) (fun i _ => i + 1) 0 fun _ _ => .returns 7

def nextCall (object : Nat) : Event Nat Unit :=
  ⟨(), object, .next 0⟩

theorem replies_of_delegateTwo :
    ((Machine.start 0 idleInterp (fun _ => delegateTwo) id).run 0
      [nextCall 0, nextCall 1, nextCall 0, nextCall 0, nextCall 0]).1 =
        [.result 1 false, .result 1 false, .result 2 false, .result 7 true, .result 0 true] := by
  have unnoticed : RunUnnoticed 0 idleInterp.gen_delegate_depth (fun _ => .fresh delegateTwo)
      [nextCall 0, nextCall 1, nextCall 0, nextCall 0, nextCall 0] := by
    have shallow : (0 : Nat) < maxDepth := by decide
    exact ⟨⟨⟨shallow, .inr trivial⟩, trivial⟩, ⟨⟨shallow, .inr trivial⟩, trivial⟩,
      ⟨rfl, ⟨shallow, .inr trivial⟩, trivial⟩, ⟨rfl, ⟨shallow, .inr trivial⟩, trivial⟩, trivial,
      trivial⟩
  exact (replies_of_suspension idleInterp (fun _ => delegateTwo) id _ rfl).2 unnoticed

/-- An exception of the body is lost. -/
theorem exception_after_yield_lost :
    let calls := [nextCall 0, nextCall 0]
    ((Machine.start 0 idleInterp (fun _ => yieldThenThrow) id).run 0 calls).1 =
        [.result 1 false, .result 0 true] ∧
      runSuspended 0 (fun _ => .fresh yieldThenThrow) calls = [.result 1 false, .raised 2] := by
  decide

end Generators
end LRJS
