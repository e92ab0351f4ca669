import LRJS.PromiseReactions

/-!
# Chains of promises

What stands between the frames of a job, and what comes of it: the derived
promise of a `then`, `catch` or `finally` gets what its handler has given.
-/

namespace LRJS.Promises

open List Option World.Moves Machine

namespace World

variable (w : World)

def Fulfilled (p : Nat) (v : Value) : Prop :=
  ∃ pd, w.promises[p]? = some pd ∧ pd.state = .fulfilled ∧ pd.result = v

def Rejected (p : Nat) (e : Value) : Prop :=
  ∃ pd, w.promises[p]? = some pd ∧ pd.state = .rejected ∧ pd.result = e

/-- The functions of a promise have gone to the `then` of an object. -/
def Follows (p : Nat) (v : Value) : Prop :=
  ∃ data ∈ w.resolve_data, data.promise = p ∧ data.thenable = some v

/-- A promise has been resolved with a value: it has the value, or follows an object, where it
cannot follow itself. -/
def Resolved (p : Nat) (v : Value) : Prop :=
  w.Fulfilled p v ∨ v.isObject = true ∧ (w.Follows p v ∨
    v = .promise p ∧ w.Rejected p (.text "Chaining cycle detected for promise"))

def Settled (p : Nat) (result : Result) : Prop :=
  match result.taken with
  | .ok v => w.Resolved p v
  | .error e => w.Rejected p e

end World

namespace JobData

variable (job : JobData) (callback : Option Result) (result : Result)

/-- The laws: what the derived promise gets, by the handler of the job and how that, or the
callback of a `finally`, has ended. -/
def Outcome (w : World) : Prop :=
  match job.handler with
  | .function _ =>
    match result with
    | .value v => w.Resolved job.promise v
    | .exception e | .thrown e => w.Rejected job.promise e
  | .identity_func => w.Resolved job.promise job.value
  | .thrower_func => w.Rejected job.promise job.value
  | .finally_fulfill_wrapper _ =>
    match callback with
    | some (.value _) => w.Resolved job.promise job.value
    | some (.exception e) | some (.thrown e) => w.Rejected job.promise e
    | none => False
  | .finally_reject_wrapper _ =>
    match callback with
    | some (.value _) => w.Rejected job.promise job.value
    | some (.exception e) | some (.thrown e) => w.Rejected job.promise e
    | none => False
  | .promise_all_fulfill _ _ | .promise_all_reject _ => True

/-- No function has thrown what the job cannot see, no stand-in has thrown an error of its own or
passed on the exception mark. -/
def Passes : Prop :=
  match job.handler with
  | .function _ =>
    match result with
    | .thrown _ => False
    | .value _ | .exception _ => True
  | .identity_func => job.value ≠ .exception
  | .thrower_func | .finally_reject_wrapper _ => False
  | .finally_fulfill_wrapper _ =>
    match callback with
    | some (.value _) => job.value ≠ .exception
    | some (.exception _) | some (.thrown _) | none => False
  | .promise_all_fulfill _ _ | .promise_all_reject _ => True

def Gives : Prop :=
  match job.handler with
  | .identity_func => job.value ≠ .exception → result = .value job.value
  | .finally_fulfill_wrapper _ =>
    match callback with
    | some (.value _) => job.value ≠ .exception → result = .value job.value
    | some (.exception _) | some (.thrown _) | none => True
  | .function _ | .thrower_func | .finally_reject_wrapper _ | .promise_all_fulfill _ _
  | .promise_all_reject _ => True

/-- A derived promise that is settled with the handler's result has the lawful outcome. -/
theorem outcome_of_settled {w : World} (gives : job.Gives callback result)
    (passes : job.Passes callback result) (settled : w.Settled job.promise result) :
    job.Outcome callback result w := by
  unfold Gives at gives
  unfold Passes at passes
  unfold Outcome
  cases handler : job.handler with
  | function f =>
    rw [handler] at passes
    cases result with
    | value v | exception e => exact settled
    | thrown e => exact passes.elim
  | identity_func =>
    simp only [handler] at gives passes
    rw [gives passes] at settled
    exact settled
  | thrower_func =>
    rw [handler] at passes
    exact passes.elim
  | finally_fulfill_wrapper f =>
    simp only [handler] at gives passes
    cases callback with
    | none => exact passes.elim
    | some ended =>
      cases ended with
      | value v =>
        rw [gives passes] at settled
        exact settled
      | exception e | thrown e => exact passes.elim
  | finally_reject_wrapper f =>
    rw [handler] at passes
    exact passes.elim
  | promise_all_fulfill pad index | promise_all_reject pad => trivial

end JobData

/-! ## What stands on what -/

def Handler.Calls : Handler → Prop
  | .function _ | .promise_all_fulfill _ _ | .promise_all_reject _ => True
  | .identity_func | .thrower_func | .finally_fulfill_wrapper _ | .finally_reject_wrapper _ =>
    False

def Control.On (w : World) (c : Control) : Option Frame → Prop
  | some (.resolving job _ result) =>
    match c with
    | .resolve p v => p = job.promise ∧ result.taken = .ok v
    | .reject p e => p = job.promise ∧ result.taken = .error e
    | .back _ => w.Settled job.promise result
    | .program | .call _ _ _ | .handle _ _ => False
  | some (.handler job callback) =>
    match c with
    | .handle h v => h = job.handler ∧ v = job.value
    | .call _ _ _ => job.handler.Calls
    | .back result => job.Gives callback result
    | .program | .resolve _ _ | .reject _ _ => False
  | some (.finallyFulfill _) | some .finallyReject =>
    match c with
    | .call _ _ _ | .back _ => True
    | .program | .handle _ _ | .resolve _ _ | .reject _ _ => False
  | _ =>
    match c with
    | .program | .call _ _ _ | .back _ => True
    | .handle _ _ | .resolve _ _ | .reject _ _ => False

def Frame.On (w : World) (upper : Frame) : Option Frame → Prop
  | some (.resolving job _ result) =>
    match upper with
    | .getter p v => p = job.promise ∧ result.taken = .ok v ∧ v.isObject = true
    | .thenCall p => p = job.promise ∧ ∃ v, result.taken = .ok v ∧ v.isObject = true ∧
        w.Follows p v
    | _ => False
  | some (.handler job _) =>
    match upper with
    | .finallyFulfill original => (∃ f, job.handler = .finally_fulfill_wrapper f) ∧
        original = job.value
    | .finallyReject => ∃ f, job.handler = .finally_reject_wrapper f
    | .getter p _ | .thenCall p | .executor p => job.handler.Calls ∧ w.Free p
    | _ => job.handler.Calls
  | _ =>
    match upper with
    | .getter p _ | .thenCall p | .executor p => w.Free p
    | .finallyFulfill _ | .finallyReject => False
    | _ => True

def Joined (w : World) : List Frame → Prop
  | [] => True
  | upper :: rest => upper.On w rest.head? ∧ Joined w rest

def Frame.waiting (resolves : Bool) : Frame → List Nat
  | .handler job _ => [job.promise]
  | .resolving job _ _ => if resolves then [job.promise] else []
  | _ => []

def Frame.resolves : Frame → Bool
  | .getter _ _ => true
  | _ => false

def Control.resolves : Control → Bool
  | .resolve _ _ | .reject _ _ => true
  | _ => false

def waitingIn : Bool → List Frame → List Nat
  | _, [] => []
  | resolves, frame :: rest => frame.waiting resolves ++ waitingIn frame.resolves rest

section Growing

variable {w w' : World}

theorem World.Grows.follows (grows : World.Grows w w') {p : Nat} {v : Value}
    (follows : w.Follows p v) : w'.Follows p v := by
  obtain ⟨data, member, promise, thenable⟩ := follows
  obtain ⟨data', member', promise', thenable'⟩ := grows.records data member
  exact ⟨data', member', promise'.trans promise, thenable'.trans thenable⟩

theorem Frame.On.grows {upper : Frame} {lower : Option Frame} (on : upper.On w lower)
    (grows : World.Grows w w') : upper.On w' lower := by
  cases lower with
  | none =>
    cases upper <;> first | exact grows.free on | exact on
  | some frame =>
    cases frame with
    | resolving job callback result =>
      cases upper with
      | thenCall p =>
        obtain ⟨same, v, taken, object, follows⟩ := on
        exact ⟨same, v, taken, object, grows.follows follows⟩
      | _ => exact on
    | handler job callback =>
      cases upper <;> first | exact ⟨on.1, grows.free on.2⟩ | exact on
    | _ =>
      cases upper <;> first | exact grows.free on | exact on

theorem Joined.grows {stack : List Frame} (joined : Joined w stack)
    (grows : World.Grows w w') : Joined w' stack := by
  induction stack with
  | nil => trivial
  | cons upper rest ih =>
    exact ⟨joined.1.grows grows, ih joined.2⟩

theorem Frame.On.noted {job : JobData} {callback callback' : Option Result}
    {lower : Option Frame} (on : (Frame.handler job callback).On w lower) :
    (Frame.handler job callback').On w lower := by
  cases lower with
  | none => exact on
  | some frame =>
    cases frame <;> exact on

end Growing

section Calls

variable {w : World} {top : Option Frame} {f : Fun} {this : Value} {args : List Value}

theorem JobData.Gives.of_calls {job : JobData} {callback : Option Result} {result : Result}
    (calls : job.handler.Calls) : job.Gives callback result := by
  unfold JobData.Gives
  cases handler : job.handler with
  | identity_func | finally_fulfill_wrapper f =>
    rw [handler] at calls
    exact calls.elim
  | _ => trivial

theorem Control.On.back (on : (Control.call f this args).On w top) (w' : World)
    (result : Result) : (Control.back result).On w' top := by
  cases top with
  | none => trivial
  | some frame =>
    cases frame with
    | handler job callback => exact .of_calls on
    | resolving job callback result => exact on.elim
    | _ => trivial

theorem Control.On.call_world (on : (Control.call f this args).On w top) (w' : World) :
    (Control.call f this args).On w' top := by
  cases top with
  | none => trivial
  | some frame => cases frame <;> exact on

theorem Control.On.program (on : Control.program.On w top) :
    (Control.call f this args).On w top := by
  cases top with
  | none => trivial
  | some frame =>
    cases frame with
    | handler job callback | resolving job callback result => exact on.elim
    | _ => trivial

theorem Control.On.program_world (on : Control.program.On w top) (w' : World) :
    Control.program.On w' top := by
  cases top with
  | none => trivial
  | some frame => cases frame <;> exact on

theorem Control.On.call {h : Handler} {v : Value} (on : (Control.handle h v).On w top)
    (calls : h.Calls) : (Control.call f this args).On w top := by
  cases top with
  | none => exact on.elim
  | some frame =>
    cases frame with
    | handler job callback =>
      obtain ⟨rfl, _⟩ := on
      exact calls
    | resolving job callback result => exact on.elim
    | finallyFulfill original => exact on.elim
    | finallyReject => exact on.elim
    | _ => exact on.elim

def Frame.Plain : Frame → Prop
  | .finallyFulfill _ | .finallyReject => False
  | .body _ | .executor _ | .getter _ _ | .thenCall _ | .handler _ _ | .resolving _ _ _
  | .combined _ => True

theorem Frame.On.back {upper : Frame} (on : upper.On w top) (plain : upper.Plain)
    (other : ∀ job callback result, top ≠ some (.resolving job callback result)) (w' : World)
    (result : Result) : (Control.back result).On w' top := by
  cases top with
  | none => trivial
  | some frame =>
    cases frame with
    | handler job callback =>
      cases upper with
      | getter p v | thenCall p | executor p => exact .of_calls on.1
      | finallyFulfill original | finallyReject => exact plain.elim
      | _ => exact .of_calls on
    | resolving job callback result => exact (other _ _ _ rfl).elim
    | _ => trivial

theorem Frame.On.other {upper : Frame} (on : upper.On w top) (never : match upper with
      | .getter _ _ | .thenCall _ => False
      | _ => True) (job : JobData) (callback : Option Result) (result : Result) :
    top ≠ some (.resolving job callback result) := by
  rintro rfl
  cases upper with
  | getter p v | thenCall p => exact never.elim
  | _ => exact on.elim

theorem Frame.On.free {upper : Frame} (on : upper.On w top) {p : Nat}
    (own : (∃ v, upper = .getter p v) ∨ upper = .thenCall p ∨ upper = .executor p)
    (other : ∀ job callback result, top ≠ some (.resolving job callback result)) : w.Free p := by
  cases top with
  | none => rcases own with ⟨v, rfl⟩ | rfl | rfl <;> exact on
  | some frame =>
    cases frame with
    | handler job callback => rcases own with ⟨v, rfl⟩ | rfl | rfl <;> exact on.2
    | resolving job callback result => exact (other _ _ _ rfl).elim
    | _ => rcases own with ⟨v, rfl⟩ | rfl | rfl <;> exact on

theorem Control.On.frame (on : (Control.call f this args).On w top) (upper : Frame)
    (plain : match upper with
      | .getter p _ | .thenCall p | .executor p => w.Free p
      | .finallyFulfill _ | .finallyReject => False
      | .body _ | .handler _ _ | .resolving _ _ _ | .combined _ => True) : upper.On w top := by
  cases top with
  | none => cases upper <;> exact plain
  | some frame =>
    cases frame with
    | handler job callback =>
      cases upper <;> first | exact ⟨on, plain⟩ | exact plain.elim | exact on
    | resolving job callback result => exact on.elim
    | _ => cases upper <;> exact plain

end Calls

theorem Control.On.not_resolving {w : World} {c : Control} {stack : List Frame}
    (on : c.On w stack.head?) (inside : c.resolves = false) (going : ∀ r, c ≠ .back r)
    (resolves : Bool) : waitingIn resolves stack = waitingIn false stack := by
  cases stack with
  | nil => rfl
  | cons frame rest =>
    cases frame with
    | resolving job callback result =>
      cases c with
      | resolve p v | reject p e => cases inside
      | back r => exact (going r rfl).elim
      | program | call f this args | handle h v => exact on.elim
    | _ => rfl

namespace Machine

variable (m : Machine)

def waiting : List Nat :=
  waitingIn m.control.resolves m.stack

structure Whole : Prop where
  linear : m.world.Linear m.waiting
  control : m.control.On m.world m.stack.head?
  frames : Joined m.world m.stack
  passes : ∀ job callback result, Frame.resolving job callback result ∈ m.stack →
    job.Gives callback result ∧ job.Passes callback result

structure Goes (next : Machine) : Prop where
  whole : next.Whole
  grows : World.Grows m.world next.world
  schedules : m.world.Schedules next.world

variable {m}

variable {w : World}

theorem Goes.of_moves {stack : List Frame} {control : Control} (whole : m.Whole)
    {gone : List Nat} (moves : World.Moves gone m.world w)
    (waiting : m.waiting = gone ++ waitingIn control.resolves stack)
    (on : control.On w stack.head?) (joined : Joined w stack)
    (passes : ∀ job callback result, Frame.resolving job callback result ∈ stack →
      job.Gives callback result ∧ job.Passes callback result) : m.Goes ⟨w, stack, control⟩ where
  whole :=
    { linear := moves.linear _ (waiting ▸ whole.linear)
      control := on
      frames := joined
      passes := passes }
  grows := moves.grows
  schedules := moves.schedules _ (waiting ▸ whole.linear)

theorem Goes.answer {result : Result} (whole : m.Whole)
    (moves : World.Moves [] m.world w) (inside : m.control.resolves = false)
    (on : (Control.back result).On w m.stack.head?) : m.Goes (m.answer w result) := by
  apply Goes.of_moves whole moves
  · unfold waiting
    rw [inside]
    rfl
  · exact on
  · exact whole.frames.grows moves.grows
  · exact whole.passes

theorem Goes.in_world (whole : m.Whole) (moves : World.Moves [] m.world w)
    (on : m.control.On w m.stack.head?) : m.Goes { m with world := w } := by
  apply Goes.of_moves whole moves
  · rfl
  · exact on
  · exact whole.frames.grows moves.grows
  · exact whole.passes

variable {next : Machine}

theorem Goes.trans {last : Machine} (first : m.Goes next) (second : next.Goes last)
    (stays : Stays next.world last.world) : m.Goes last where
  whole := second.whole
  grows := first.grows.trans second.grows
  schedules := by
    obtain ⟨new, scheduled, sends⟩ := first.schedules
    obtain ⟨new', scheduled', sends'⟩ := second.schedules
    refine ⟨new ++ new', by rw [scheduled', scheduled, append_assoc], ?_⟩
    intro job member
    rcases mem_append.mp member with old | late
    · exact (sends job old).later second.grows stays
    · exact sends' job late

variable {p : Nat}

theorem Goes.resolve_free (value : Value) (whole : m.Whole) (free : m.world.Free p)
    (inside : m.control.resolves = false) (going : ∀ r, m.control ≠ .back r)
    (back : ∀ (w : World) (v : Value), (Control.back (.value v)).On w m.stack.head?)
    (under : (Frame.getter p value).On m.world m.stack.head?) :
    m.Goes (m.lr_promise_resolve_internal p value) := by
  unfold lr_promise_resolve_internal
  split
  · exact Goes.answer whole (refl _) inside (back _ _)
  split
  · exact Goes.answer whole (settle_free free _ _) inside (back _ _)
  split
  · apply Goes.of_moves whole (refl _)
    · unfold waiting
      rw [inside]
      exact (whole.control.not_resolving inside going true).symm
    · trivial
    · exact ⟨trivial, under, whole.frames⟩
    · intro job callback result member
      apply whole.passes
      simpa using member
  · exact Goes.answer whole (settle_free free _ _) inside (back _ _)

section Entering

variable {f : Fun} {this : Value} {args : List Value}

section

variable {w : World} (whole : m.Whole) (calls : m.control = .call f this args)
    (moves : World.Moves [] m.world w)
include whole calls moves

theorem Goes.called {result : Result} : m.Goes (m.answer w result) := by
  have on := whole.control
  rw [calls] at on
  exact Goes.answer whole moves (by rw [calls]; rfl) (on.back w result)

theorem Goes.raised {e : Value} : m.Goes (m.raise w e) :=
  Goes.called whole calls (moves.trans (World.Moves.raised w e) (Keeps.raised w e).stays)

/-- Resolving a promise that nobody waits for goes on as is meant. -/
theorem Goes.resolve {p : Nat} (free : w.Free p) (value : Value)
    (own : List Frame) (frames : own = [] ∨ ∃ q, own = [.combined q]) :
    m.Goes (Machine.lr_promise_resolve_internal ⟨w, own ++ m.stack, m.control⟩ p value) := by
  have on := whole.control
  rw [calls] at on
  have here := on.call_world w
  have pushed : (Control.call f this args).On w (own ++ m.stack).head? := by
    rcases frames with rfl | ⟨q, rfl⟩
    · exact here
    · trivial
  have first : m.Goes ⟨w, own ++ m.stack, m.control⟩ := by
    apply Goes.of_moves whole moves
    · unfold waiting
      rw [calls]
      rcases frames with rfl | ⟨q, rfl⟩
      · rfl
      · rfl
    · rw [calls]
      exact pushed
    · rcases frames with rfl | ⟨q, rfl⟩
      · exact whole.frames.grows moves.grows
      · exact ⟨here.frame _ trivial, whole.frames.grows moves.grows⟩
    · intro job callback result member
      apply whole.passes
      rcases frames with rfl | ⟨q, rfl⟩
      · exact member
      · simpa using member
  refine first.trans (Goes.resolve_free value first.whole free ?_ ?_ ?_ ?_)
    (keeps_resolve_internal _ _ _).stays
  · dsimp only
    rw [calls]
    rfl
  · dsimp only
    intro r
    rw [calls]
    exact Control.noConfusion
  · exact fun w' v => pushed.back w' (.value v)
  · exact pushed.frame _ free

end

theorem free_new (w : World) : (w.lr_new_promise false).Free w.newId := by
  refine .inr ⟨promise_data_new false, ?_, rfl⟩
  unfold World.lr_new_promise World.newId
  rw [getElem?_append_right (Nat.le_refl _), Nat.sub_self]
  rfl

theorem Goes.thenWith (whole : m.Whole) (calls : m.control = .call f this args) (method : String)
    (receiver : Value) (on_fulfilled on_rejected : Handler) :
    m.Goes (m.thenWith method receiver on_fulfilled on_rejected) := by
  unfold Machine.thenWith
  cases found : m.promiseData receiver with
  | none => exact Goes.raised whole calls (refl _)
  | some data =>
    exact Goes.called whole calls (promise_then (m.promiseData_eq_some found) _ _)

theorem moves_all_watch (pad index : Nat) (w : World) (q : Nat) :
    World.Moves [] w (promise_all_watch pad index w q) := by
  unfold promise_all_watch
  cases found : w.promises[q]? with
  | none => exact refl w
  | some pd => exact promise_then found _ _

theorem moves_all_item (pad : Nat) (w : World) (index : Nat) (item : Value) :
    World.Moves [] w (promise_all_item pad w index item) := by
  cases item with
  | promise q => exact moves_all_watch pad index w q
  | _ =>
    exact (newSettled w _ _).trans (moves_all_watch pad index _ _)
      (keeps_all_watch pad index _ _).stays

theorem moves_all_items (pad : Nat) (items : List (Value × Nat)) (w : World) :
    World.Moves [] w (items.foldl (fun w item => promise_all_item pad w item.2 item.1) w) := by
  induction items generalizing w with
  | nil => exact refl w
  | cons item rest ih =>
    exact (moves_all_item pad w item.2 item.1).trans (ih _)
      (keeps_all_items pad rest _).stays

theorem moves_newArray (w : World) (elements : List Value) :
    World.Moves [] w { w with arrays := w.arrays ++ [elements] } :=
  of_same rfl rfl rfl rfl id

theorem moves_toArray (w : World) (iterable : Value) :
    World.Moves [] w ((w.lr_new_promise false).toArray iterable).1 ∧
      ((w.lr_new_promise false).toArray iterable).1.Free w.newId := by
  have arrays := toArray (w.lr_new_promise false) iterable
  exact ⟨(lr_new_promise w).trans arrays (Keeps.toArray _ _).stays,
    arrays.grows.free (free_new w)⟩

section

variable (whole : m.Whole) (calls : m.control = .call f this args)
include whole calls

variable (iterable : Value)

theorem Goes.all : m.Goes (m.js_promise_all iterable) := by
  obtain ⟨moves, free⟩ := moves_toArray m.world iterable
  unfold js_promise_all
  dsimp only
  split
  · exact Goes.resolve whole calls moves free _ [.combined _] (.inr ⟨_, rfl⟩)
  · apply Goes.called whole calls
    refine (moves.trans ?_ ?_).trans (moves_all_items _ _ _) (keeps_all_items _ _ _).stays
    · refine of_same rfl rfl rfl rfl fun pads pad member => ?_
      rcases mem_append.mp member with old | new
      · exact pads pad old
      · rw [mem_singleton.mp new]
        exact free
    · exact (Keeps.of_same rfl rfl rfl).stays

theorem Goes.race : m.Goes (m.js_promise_race iterable) := by
  obtain ⟨moves, free⟩ := moves_toArray m.world iterable
  unfold js_promise_race
  dsimp only
  split
  · exact Goes.called whole calls moves
  · exact Goes.resolve whole calls moves free _ [.combined _] (.inr ⟨_, rfl⟩)

theorem Goes.all_settled : m.Goes (m.js_promise_all_settled iterable) := by
  obtain ⟨moves, free⟩ := moves_toArray m.world iterable
  unfold js_promise_all_settled
  dsimp only
  split
  · exact Goes.resolve whole calls moves free _ [.combined _] (.inr ⟨_, rfl⟩)
  · refine Goes.resolve whole calls (moves.trans (moves_newArray _ _) ?_) ?_ _ [.combined _]
      (.inr ⟨_, rfl⟩)
    · exact (Keeps.of_same rfl rfl rfl).stays
    · exact (moves_newArray _ _).grows.free free

theorem Goes.any : m.Goes (m.js_promise_any iterable) := by
  obtain ⟨moves, free⟩ := moves_toArray m.world iterable
  unfold js_promise_any
  dsimp only
  split
  · exact Goes.resolve whole calls moves free _ [.combined _] (.inr ⟨_, rfl⟩)
  · exact Goes.called whole calls (moves.trans (reject_free free _)
      (Keeps.lr_promise_reject_internal _ _ _).stays)

theorem Goes.run (native : Bool) : m.Goes (m.run native) := by
  have on := whole.control
  rw [calls] at on
  apply Goes.of_moves whole (refl _)
  · unfold waiting
    rw [calls]
    rfl
  · trivial
  · exact ⟨on.frame _ trivial, whole.frames⟩
  · intro job callback result member
    apply whole.passes
    simpa using member

theorem Goes.constructor (executor : Value) : m.Goes (m.js_promise_constructor executor) := by
  unfold js_promise_constructor
  split
  · exact Goes.raised whole calls (lr_new_promise _)
  · have on := whole.control
    rw [calls] at on
    have known : m.world.newId < (m.world.lr_new_promise false).promises.length := by
      unfold World.lr_new_promise World.newId
      rw [length_append]
      exact Nat.lt_succ_self _
    have functions := resolve_data_free (free_new m.world) known none
    have moves := (lr_new_promise m.world).trans functions
      (Keeps.resolve_data_new _ _ _).stays
    apply Goes.of_moves whole moves
    · unfold waiting
      rw [calls]
      rfl
    · trivial
    · refine ⟨?_, whole.frames.grows moves.grows⟩
      have here : (Control.call f this args).On ((m.world.lr_new_promise false).resolve_data_new
          m.world.newId none) m.stack.head? := on.call_world _
      exact here.frame _ (functions.grows.free (free_new m.world))
    · intro job callback result member
      apply whole.passes
      simpa using member

/-- A call of any function registers and settles as is meant. -/
theorem Goes.enter : m.Goes (m.enter f this args) := by
  cases f with
  | user f => exact Goes.run whole calls false
  | native f => exact Goes.run whole calls true
  | promise_resolve_func rd =>
    unfold enter promise_resolve_func
    dsimp only
    split
    · exact Goes.called whole calls (refl _)
    · rename_i data found
      have marked := markCalled m.world rd
      exact Goes.resolve whole calls marked
        (marked.grows.free (.inl ⟨data, mem_of_getElem? found, rfl⟩)) _ [] (.inl rfl)
  | promise_reject_func rd =>
    unfold enter promise_reject_func
    dsimp only
    split
    · exact Goes.called whole calls (refl _)
    · rename_i data found
      have marked := markCalled m.world rd
      have free := marked.grows.free (.inl ⟨data, mem_of_getElem? found, rfl⟩)
      exact Goes.called whole calls (marked.trans (reject_free free _)
        (Keeps.lr_promise_reject_internal _ _ _).stays)
  | js_promise_constructor => exact Goes.constructor whole calls _
  | js_promise_then | js_promise_catch => exact Goes.thenWith whole calls _ _ _ _
  | js_promise_finally =>
    unfold enter js_promise_finally
    dsimp only
    split
    · exact Goes.thenWith whole calls _ _ _ _
    · exact Goes.thenWith whole calls _ _ _ _
  | js_promise_resolve =>
    unfold enter js_promise_resolve
    dsimp only
    split
    · exact Goes.called whole calls (refl _)
    · exact Goes.called whole calls (newSettled _ _ _)
  | js_promise_reject => exact Goes.called whole calls (newSettled _ _ _)
  | js_promise_all => exact Goes.all whole calls _
  | js_promise_race => exact Goes.race whole calls _
  | js_promise_all_settled => exact Goes.all_settled whole calls _
  | js_promise_any => exact Goes.any whole calls _

end

end Entering

theorem returned_plain {v : Value} (plain : v ≠ .exception) : w.returned v = .value v :=
  if_neg plain

section

variable {h : Handler} {v : Value} (whole : m.Whole) (handles : m.control = .handle h v)
include whole handles

theorem handled :
    ∃ job callback rest, m.stack = .handler job callback :: rest ∧ h = job.handler ∧
      v = job.value := by
  have on := whole.control
  rw [handles] at on
  cases stack : m.stack with
  | nil =>
    rw [stack] at on
    exact on.elim
  | cons frame rest =>
    rw [stack] at on
    cases frame with
    | handler job callback => exact ⟨job, callback, rest, rfl, on.1, on.2⟩
    | _ => exact on.elim

/-- A handler that a job runs settles the derived promise as its law says. -/
theorem Goes.handle : m.Goes (m.handle h v) := by
  obtain ⟨job, callback, rest, stack, same, passed⟩ := handled whole handles
  have inside : m.control.resolves = false := by
    rw [handles]
    rfl
  have top : m.stack.head? = some (.handler job callback) := by
    rw [stack]
    rfl
  have waits : m.waiting = waitingIn false m.stack := by
    unfold waiting
    rw [inside]
  have calling (calls : h.Calls) :
      m.Goes ⟨m.world, m.stack, .call (.user 0) .undefined []⟩ := by
    refine Goes.of_moves whole (World.Moves.refl _) waits ?_ whole.frames whole.passes
    have on := whole.control
    rw [handles] at on
    exact on.call calls
  cases h with
  | function f =>
    refine Goes.of_moves whole (World.Moves.refl _) waits ?_ whole.frames whole.passes
    have on := whole.control
    rw [handles] at on
    exact on.call trivial
  | identity_func =>
    refine Goes.answer whole (World.Moves.refl _) inside ?_
    rw [top]
    unfold Control.On JobData.Gives
    dsimp only
    rw [← same, passed]
    exact returned_plain
  | thrower_func =>
    refine Goes.answer whole (World.Moves.raised _ _) inside ?_
    rw [top]
    unfold Control.On JobData.Gives
    dsimp only
    rw [← same]
    trivial
  | finally_fulfill_wrapper f =>
    refine Goes.of_moves whole (World.Moves.refl _) waits trivial ⟨?_, whole.frames⟩ ?_
    · rw [top]
      exact ⟨⟨f, same.symm⟩, passed⟩
    · intro job callback result member
      apply whole.passes
      simpa using member
  | finally_reject_wrapper f =>
    refine Goes.of_moves whole (World.Moves.refl _) waits trivial ⟨?_, whole.frames⟩ ?_
    · rw [top]
      exact ⟨f, same.symm⟩
    · intro job callback result member
      apply whole.passes
      simpa using member
  | promise_all_fulfill pad index =>
    have first := calling trivial
    unfold handle promise_all_fulfill
    dsimp only
    split
    · exact first.trans (Goes.called first.whole rfl (World.Moves.refl _)) (Keeps.refl _).stays
    rename_i pd found
    split
    · exact first.trans (Goes.called first.whole rfl (World.Moves.refl _)) (Keeps.refl _).stays
    have stored := World.Moves.storeResult found index v
    have free := stored.grows.free (whole.linear.pads pd (mem_of_getElem? found))
    split
    · exact first.trans (Goes.resolve first.whole rfl stored free _ [] (.inl rfl))
        ((Keeps.storeResult _ _ _ _ _).trans
          (keeps_resolve_internal ⟨_, m.stack, m.control⟩ _ _)).stays
    · exact first.trans (Goes.called first.whole rfl stored) (Keeps.storeResult _ _ _ _ _).stays
  | promise_all_reject pad =>
    have first := calling trivial
    unfold handle promise_all_reject
    dsimp only
    split
    · exact first.trans (Goes.called first.whole rfl (World.Moves.refl _)) (Keeps.refl _).stays
    rename_i pd found
    split
    · exact first.trans (Goes.called first.whole rfl (World.Moves.refl _)) (Keeps.refl _).stays
    have marked := World.Moves.markRejected found
    have free := marked.grows.free (whole.linear.pads pd (mem_of_getElem? found))
    have rejects := Keeps.lr_promise_reject_internal (m.world.markRejected pad pd) pd.result v
    exact first.trans (Goes.called first.whole rfl
      (marked.trans (World.Moves.reject_free free v) rejects.stays))
      ((Keeps.markRejected _ _ _).trans rejects).stays

end

theorem settle_found {pd : LRPromiseData} (found : w.promises[p]? = some pd)
    (kind : JobKind) (result : Value) : ∃ pd', (w.settle p kind result).promises[p]? = some pd' ∧
      pd'.state = kind.state ∧ pd'.result = result := by
  rw [settle_eq found]
  exact ⟨_, List.getElem?_set_self (List.getElem?_eq_some_iff.mp found).1, rfl, rfl⟩

theorem resolving (outcome : Except Value Value) (whole : m.Whole)
    (resolves : m.control = match outcome with
      | .ok v => .resolve p v
      | .error e => .reject p e) :
    ∃ job callback result rest pd, m.stack = .resolving job callback result :: rest ∧
      p = job.promise ∧ result.taken = outcome ∧ m.waiting = [p] ++ waitingIn false rest ∧
      m.world.promises[p]? = some pd ∧ m.world.isPending p = true := by
  have on := whole.control
  have waits := whole.linear.isOpen p
  cases stack : m.stack with
  | nil =>
    rw [stack, resolves] at on
    cases outcome <;> exact on.elim
  | cons frame rest =>
    rw [stack, resolves] at on
    cases frame with
    | resolving job callback result =>
      have here : p = job.promise ∧ result.taken = outcome := by
        cases outcome <;> exact on
      have waiting : m.waiting = [p] ++ waitingIn false rest := by
        unfold waiting
        rw [stack, resolves, here.1]
        cases outcome <;> rfl
      obtain ⟨pd, found, _, pending, _⟩ := waits (by
        rw [waiting]
        exact mem_append_left _ (mem_append_left _ (mem_singleton.mpr rfl)))
      exact ⟨job, callback, result, rest, pd, rfl, here.1, here.2, waiting, found,
        isPending_iff.mpr ⟨pd, found, pending⟩⟩
    | _ => cases outcome <;> exact on.elim

/-- Resolving the derived promise of a job goes on as is meant. -/
theorem Goes.resolve_waiting {v : Value} (whole : m.Whole)
    (resolves : m.control = .resolve p v) : m.Goes (m.lr_promise_resolve_internal p v) := by
  obtain ⟨job, callback, result, rest, pd, stack, rfl, taken, waiting, found, pending⟩ :=
    resolving (.ok v) whole resolves
  have top : m.stack.head? = some (.resolving job callback result) := by
    rw [stack]
    rfl
  have settles (kind : JobKind) (value : Value)
      (settled : (m.world.settle job.promise kind value).Settled job.promise result) :
      m.Goes (m.answer (m.world.settle job.promise kind value) (.value .undefined)) := by
    have moves := settle_waiting m.world job.promise kind value
    refine Goes.of_moves whole moves ?_ ?_ (whole.frames.grows moves.grows) whole.passes
    · rw [waiting, stack]
      rfl
    · rw [top]
      exact settled
  unfold Machine.lr_promise_resolve_internal
  rw [if_neg (by rw [pending]; decide)]
  split
  · rename_i cycle
    apply settles
    unfold World.Settled
    rw [taken]
    refine .inr ⟨?_, .inr ⟨cycle, settle_found found .reject _⟩⟩
    rw [cycle]
    rfl
  split_ifs with object
  · apply Goes.of_moves whole (refl _)
    · unfold Machine.waiting
      rw [resolves]
      rfl
    · trivial
    · refine ⟨trivial, ?_, whole.frames⟩
      rw [top]
      exact ⟨rfl, taken, object⟩
    · intro job callback result member
      apply whole.passes
      simpa using member
  · apply settles
    unfold World.Settled
    rw [taken]
    exact .inl (settle_found found .fulfill v)

theorem Goes.reject_waiting {e : Value} (whole : m.Whole) (resolves : m.control = .reject p e) :
    m.Goes (m.answer (m.world.lr_promise_reject_internal p e) (.value .undefined)) := by
  obtain ⟨job, callback, result, rest, pd, stack, rfl, taken, waiting, found, pending⟩ :=
    resolving (.error e) whole resolves
  unfold World.lr_promise_reject_internal
  rw [if_pos pending]
  have moves := settle_waiting m.world job.promise .reject e
  refine Goes.of_moves whole moves ?_ ?_ (whole.frames.grows moves.grows) whole.passes
  · rw [waiting, stack]
    rfl
  · rw [stack]
    unfold Control.On World.Settled
    simp only [head?_cons, taken]
    exact settle_found found .reject e

section Resuming

variable {result : Result} {rest : List Frame}

variable {upper : Frame}

theorem Whole.top (whole : m.Whole) (stack : m.stack = upper :: rest) :
    upper.On m.world rest.head? ∧ Joined m.world rest := by
  have frames := whole.frames
  rw [stack] at frames
  exact frames

theorem Goes.popped {w : World} {control : Control} {gone : List Nat}
    (whole : m.Whole) (stack : m.stack = upper :: rest) (moves : World.Moves gone m.world w)
    (waiting : m.waiting = gone ++ waitingIn control.resolves rest) (on : control.On w rest.head?) :
    m.Goes ⟨w, rest, control⟩ := by
  refine Goes.of_moves whole moves waiting on ((whole.top stack).2.grows moves.grows) ?_
  intro job callback result member
  apply whole.passes
  rw [stack]
  exact mem_cons_of_mem _ member

theorem waiting_back (back : m.control = .back result) : m.waiting = waitingIn false m.stack := by
  unfold waiting
  rw [back]
  rfl

theorem Goes.returned {w : World} {answer : Result} (whole : m.Whole)
    (back : m.control = .back result) (stack : m.stack = upper :: rest)
    (moves : World.Moves [] m.world w) (plain : upper.Plain)
    (nothing : upper.waiting false = []) (free : ∀ job callback result,
      rest.head? ≠ some (.resolving job callback result)) : m.Goes ⟨w, rest, .back answer⟩ := by
  refine Goes.popped whole stack moves ?_ ((whole.top stack).1.back plain free w answer)
  rw [waiting_back back, stack]
  unfold waitingIn
  rw [nothing]
  cases below : rest with
  | nil => rfl
  | cons frame rest' =>
    cases frame with
    | resolving job callback result =>
      rw [below] at free
      exact (free job callback result rfl).elim
    | _ => rfl

theorem Goes.executor {p : Nat} (whole : m.Whole) (back : m.control = .back result)
    (stack : m.stack = .executor p :: rest) : m.Goes (m.resume result) := by
  obtain ⟨on, _⟩ := whole.top stack
  have other := on.other trivial
  unfold resume
  rw [stack]
  dsimp only
  split
  · exact Goes.returned whole back stack (refl _) trivial rfl other
  · have free := on.free (.inr (.inr rfl)) other
    exact Goes.returned whole back stack (reject_free free _) trivial rfl other

variable {callback : Option Result}

section

variable (whole : m.Whole) (back : m.control = .back result)
include whole back

/-- A looked-up `then` of a job's result is followed, or the promise fulfilled. -/
theorem Goes.getter_waiting {p : Nat} {value : Value} {job : JobData} {given : Result}
    {below : List Frame}
    (stack : m.stack = .getter p value :: .resolving job callback given :: below) :
    m.Goes (m.resume result) := by
  obtain ⟨⟨rfl, taken, object⟩, lower⟩ := whole.top stack
  have waiting : m.waiting = [job.promise] ++ waitingIn false below := by
    rw [waiting_back back, stack]
    rfl
  obtain ⟨pd, found, _, pending, _⟩ := whole.linear.isOpen job.promise (by
    rw [waiting]
    exact mem_append_left _ (mem_append_left _ (mem_singleton.mpr rfl)))
  unfold resume
  rw [stack]
  dsimp only
  split
  · have known := (List.getElem?_eq_some_iff.mp found).1
    have moves := resolve_data_waiting known (some value)
    have follows : (m.world.resolve_data_new job.promise (some value)).Follows job.promise value :=
      ⟨⟨job.promise, some value, false⟩, mem_append_right _ (mem_singleton.mpr rfl), rfl,
        rfl⟩
    apply Goes.of_moves whole moves
    · rw [waiting]
      rfl
    · trivial
    · exact ⟨⟨rfl, value, taken, object, follows⟩, lower.grows moves.grows⟩
    · intro job callback result member
      apply whole.passes
      rw [stack]
      simpa using member
  · have moves := settle_waiting m.world job.promise .fulfill value
    refine Goes.popped whole stack moves waiting ?_
    unfold Control.On World.Settled
    simp only [head?_cons, taken]
    exact .inl (settle_found found .fulfill value)

/-- A looked-up `then` is followed, or the promise fulfilled. -/
theorem Goes.getter_free {p : Nat} {value : Value} (stack : m.stack = .getter p value :: rest)
    (other : ∀ job callback result, rest.head? ≠ some (.resolving job callback result)) :
    m.Goes (m.resume result) := by
  obtain ⟨on, lower⟩ := whole.top stack
  have free := on.free (.inl ⟨value, rfl⟩) other
  have waiting : m.waiting = waitingIn false rest := by
    rw [waiting_back back, stack]
    cases rest with
    | nil => rfl
    | cons frame rest' =>
      cases frame with
      | resolving job callback result => exact (other job callback result rfl).elim
      | _ => rfl
  unfold resume
  rw [stack]
  dsimp only
  split
  · have moves := resolve_data_free free (whole.linear.free_lt free) (some value)
    apply Goes.of_moves whole moves
    · rw [waiting]
      rfl
    · trivial
    · refine ⟨?_, lower.grows moves.grows⟩
      cases rest with
      | nil => exact moves.grows.free free
      | cons frame rest' =>
        cases frame with
        | resolving job callback result => exact (other job callback result rfl).elim
        | handler job callback => exact ⟨on.1, moves.grows.free free⟩
        | _ => exact moves.grows.free free
    · intro job callback result member
      apply whole.passes
      rw [stack]
      simpa using member
  · have moves := settle_free free .fulfill value
    exact Goes.popped whole stack moves waiting (on.back trivial other _ _)

theorem Goes.thenCall {p : Nat}
    (stack : m.stack = .thenCall p :: rest) : m.Goes (m.resume result) := by
  obtain ⟨on, _⟩ := whole.top stack
  unfold resume
  rw [stack]
  dsimp only
  by_cases waits : ∃ job callback given, rest.head? = some (.resolving job callback given)
  · obtain ⟨job, callback, given, below⟩ := waits
    rw [below] at on
    obtain ⟨rfl, v, taken, object, follows⟩ := on
    have free : m.world.Free job.promise := by
      obtain ⟨data, member, same, _⟩ := follows
      exact .inl ⟨data, member, same⟩
    have waiting : m.waiting = waitingIn false rest := by
      rw [waiting_back back, stack]
      rfl
    have settled {w : World} (follows : w.Follows job.promise v) :
        (Control.back (.value .undefined)).On w rest.head? := by
      rw [below]
      unfold Control.On World.Settled
      simp only [taken]
      exact .inr ⟨object, .inl follows⟩
    split
    · exact Goes.popped whole stack (refl _) waiting (settled follows)
    · have moves := settle_free free .reject .exception
      exact Goes.popped whole stack moves waiting (settled (moves.grows.follows follows))
  · have other : ∀ job callback result, rest.head? ≠ some (.resolving job callback result) :=
      fun job callback given below => waits ⟨job, callback, given, below⟩
    split
    · exact Goes.returned whole back stack (refl _) trivial rfl other
    · have free := on.free (.inr (.inl rfl)) other
      exact Goes.returned whole back stack (settle_free free _ _) trivial rfl other

/-- A handler that returns passes its result to the derived promise. -/
theorem Goes.handler {job : JobData} (stack : m.stack = .handler job callback :: rest)
    (passes : job.Passes callback result) : m.Goes (m.resume result) := by
  obtain ⟨on, lower⟩ := whole.top stack
  have gives : job.Gives callback result := by
    have control := whole.control
    rw [back, stack] at control
    exact control
  have waiting : m.waiting = waitingIn true (.resolving job callback result :: rest) := by
    rw [waiting_back back, stack]
    rfl
  have frames : Joined m.world (.resolving job callback result :: rest) := by
    refine ⟨?_, lower⟩
    cases rest with
    | nil => trivial
    | cons frame rest' => cases frame <;> exact on
  have noted : ∀ job' callback' result',
      Frame.resolving job' callback' result' ∈ Frame.resolving job callback result :: rest →
        job'.Gives callback' result' ∧ job'.Passes callback' result' := by
    intro job' callback' result' member
    rcases mem_cons.mp member with same | old
    · cases same
      exact ⟨gives, passes⟩
    · apply whole.passes
      rw [stack]
      exact mem_cons_of_mem _ old
  unfold resume
  rw [stack]
  dsimp only
  split
  · rename_i v taken
    exact Goes.of_moves whole (refl _) waiting ⟨rfl, taken⟩ frames noted
  · rename_i e taken
    exact Goes.of_moves whole (refl _) waiting ⟨rfl, taken⟩ frames noted

theorem Goes.noted {w : World} {answer : Result} (stack : m.stack = upper :: rest)
    (moves : World.Moves [] m.world w) {job : JobData}
    {below : List Frame} (under : rest = .handler job callback :: below)
    (nothing : ∀ resolves, upper.waiting resolves = []) (gives : job.Gives (some result) answer) :
    m.Goes ⟨w, noteCallback result rest, .back answer⟩ := by
  obtain ⟨_, lower⟩ := whole.top stack
  subst under
  apply Goes.of_moves whole moves
  · rw [waiting_back back, stack]
    unfold waitingIn
    rw [nothing]
    rfl
  · exact gives
  · exact ⟨(lower.1.noted).grows moves.grows, lower.2.grows moves.grows⟩
  · intro job' callback' result' member
    apply whole.passes
    rw [stack]
    simp only [noteCallback, mem_cons, reduceCtorEq, false_or] at member ⊢
    exact .inr member

end

theorem finally_below (whole : m.Whole) (stack : m.stack = upper :: rest)
    (wrapper : (∃ original, upper = .finallyFulfill original) ∨ upper = .finallyReject) :
    ∃ job callback below, rest = .handler job callback :: below ∧
      upper.On m.world (some (.handler job callback)) := by
  obtain ⟨on, _⟩ := whole.top stack
  cases rest with
  | nil => rcases wrapper with ⟨original, rfl⟩ | rfl <;> exact on.elim
  | cons frame below =>
    cases frame with
    | handler job callback => exact ⟨job, callback, below, rfl, on⟩
    | _ => rcases wrapper with ⟨original, rfl⟩ | rfl <;> exact on.elim

section

variable (whole : m.Whole) (back : m.control = .back result)
include whole back

theorem Goes.finallyFulfill {original : Value} (stack : m.stack =
      .finallyFulfill original :: rest) :
    m.Goes (m.resume result) := by
  obtain ⟨job, callback, below, under, ⟨f, wrapper⟩, rfl⟩ :=
    finally_below whole stack (.inl ⟨original, rfl⟩)
  unfold resume
  rw [stack]
  dsimp only
  split
  · rename_i v taken
    refine Goes.noted whole back stack (refl _) under (fun _ => rfl) ?_
    unfold JobData.Gives
    rw [wrapper]
    cases result with
    | value v => exact returned_plain
    | exception e | thrown e => trivial
  · rename_i e taken
    refine Goes.noted whole back stack (refl _) under (fun _ => rfl) ?_
    unfold JobData.Gives
    rw [wrapper]
    cases result with
    | value v => cases taken
    | exception e | thrown e => trivial

theorem Goes.finallyReject
    (stack : m.stack = .finallyReject :: rest) : m.Goes (m.resume result) := by
  obtain ⟨job, callback, below, under, f, wrapper⟩ := finally_below whole stack (.inr rfl)
  have gives (answer : Result) : job.Gives (some result) answer := by
    unfold JobData.Gives
    rw [wrapper]
    trivial
  unfold resume
  rw [stack]
  dsimp only
  split
  · exact Goes.noted whole back stack (World.Moves.raised _ _) under (fun _ => rfl) (gives _)
  · exact Goes.noted whole back stack (World.Moves.refl _) under (fun _ => rfl) (gives _)

/-- A result of a callback goes on as is meant. -/
theorem Goes.resume (passes : ∀ job callback below, m.stack = .handler job callback :: below →
      job.Passes callback result) : m.Goes (m.resume result) := by
  cases stack : m.stack with
  | nil =>
    have same : m.resume result = { m with control := .program } := by
      unfold Machine.resume
      rw [stack]
    rw [same]
    refine Goes.of_moves whole (refl _) (waiting_back back) ?_ whole.frames
      whole.passes
    rw [stack]
    trivial
  | cons frame rest =>
    obtain ⟨on, _⟩ := whole.top stack
    cases frame with
    | body native =>
      have same : m.resume result = { m with control := .program } := by
        unfold Machine.resume
        rw [stack]
      rw [same]
      refine Goes.of_moves whole (refl _) (waiting_back back) ?_ whole.frames
        whole.passes
      rw [stack]
      trivial
    | executor p => exact Goes.executor whole back stack
    | getter p value =>
      by_cases waits : ∃ job callback given, rest.head? = some (.resolving job callback given)
      · obtain ⟨job, callback, given, top⟩ := waits
        obtain ⟨below, rfl⟩ := head?_eq_some_iff.mp top
        exact Goes.getter_waiting whole back stack
      · exact Goes.getter_free whole back stack
          fun job callback given top => waits ⟨job, callback, given, top⟩
    | thenCall p => exact Goes.thenCall whole back stack
    | handler job callback => exact Goes.handler whole back stack (passes _ _ _ stack)
    | resolving job callback given =>
      unfold Machine.resume
      rw [stack]
      exact Goes.returned whole back stack (refl _) trivial rfl (on.other trivial)
    | finallyFulfill original => exact Goes.finallyFulfill whole back stack
    | finallyReject => exact Goes.finallyReject whole back stack
    | combined p =>
      unfold Machine.resume
      rw [stack]
      exact Goes.returned whole back stack (refl _) trivial rfl (on.other trivial)

end

end Resuming

/-- The handler of a job ends so that its law holds; and a `finally` without a callback has no
second function. -/
def Passing (m : Machine) : Event → Prop
  | .native =>
    match m.control, m.stack with
    | .back result, .handler job callback :: _ => job.Passes callback result
    | .call .js_promise_finally _ args, _ =>
      (args.getD 0 .undefined).callable = none → (args.getD 1 .undefined).callable = none
    | _, _ => True
  | _ => True

theorem Goes.advance (whole : m.Whole) (passing : m.Passing .native)
    (taken : m.advance = some next) : m.Goes next := by
  unfold Machine.advance at taken
  cases control : m.control with
  | program =>
    rw [control] at taken
    cases taken
  | call f this args =>
    rw [control] at taken
    cases taken
    exact Goes.enter whole control
  | handle h v =>
    rw [control] at taken
    cases taken
    exact Goes.handle whole control
  | resolve p v =>
    rw [control] at taken
    cases taken
    exact Goes.resolve_waiting whole control
  | reject p e =>
    rw [control] at taken
    cases taken
    exact Goes.reject_waiting whole control
  | back result =>
    rw [control] at taken
    cases taken
    apply Goes.resume whole control
    intro job callback below stack
    unfold Passing at passing
    simp only [control, stack] at passing
    exact passing

variable {event : Event}

/-- A step of the program goes on as is meant. -/
theorem Goes.act (whole : m.Whole)
    (program : m.control = .program) (taken : m.act event = some next) : m.Goes next := by
  have on := whole.control
  rw [program] at on
  have waits : m.waiting = waitingIn false m.stack := by
    unfold waiting
    rw [program]
    rfl
  have done {native : Bool} {rest : List Frame} (stack : m.stack = .body native :: rest)
      {w : World} (moves : World.Moves [] m.world w) (result : Result) :
      m.Goes ⟨w, rest, .back result⟩ := by
    obtain ⟨under, _⟩ := whole.top stack
    refine Goes.popped whole stack moves ?_ (under.back trivial (under.other trivial) _ _)
    rw [waits, stack]
    rfl
  cases event with
  | native => cases taken
  | invoke f this args =>
    cases taken
    exact Goes.of_moves whole (World.Moves.refl _) waits on.program whole.frames
      whole.passes
  | finish v =>
    unfold act at taken
    dsimp only at taken
    split at taken
    · rename_i rest stack
      cases taken
      exact done stack (World.Moves.refl _) _
    · cases taken
  | fail e =>
    unfold act at taken
    dsimp only at taken
    split at taken
    · rename_i rest stack
      cases taken
      exact done stack (World.Moves.raised _ _) _
    · rename_i rest stack
      cases taken
      exact done stack (World.Moves.refl _) _
    · cases taken
  | drain =>
    unfold act at taken
    dsimp only at taken
    split at taken
    · rename_i job rest queue
      cases taken
      have grows : World.Grows m.world { m.world with jobs := rest } := .of_same rfl rfl
      have linear := whole.linear
      rw [waits] at linear
      refine ⟨⟨linear.pop queue, ⟨rfl, rfl⟩, ⟨?_, whole.frames.grows grows⟩, ?_⟩, grows,
        .of_same rfl⟩
      · have calls : (Control.call (.user 0) .undefined []).On m.world m.stack.head? := on.program
        exact (calls.frame _ trivial).grows grows
      · intro job' callback result member
        apply whole.passes
        simpa using member
    · cases taken
  | array elements =>
    cases taken
    apply Goes.in_world whole (moves_newArray m.world elements)
    rw [program]
    exact on.program_world _

theorem Goes.step (whole : m.Whole)
    (passing : m.Passing event) (taken : m.step event = some next) : m.Goes next := by
  rcases m.step_cases taken with ⟨rfl, advances⟩ | ⟨program, acts⟩
  · exact Goes.advance whole passing advances
  · exact Goes.act whole program acts

theorem whole_start : start.Whole := by
  refine ⟨⟨nodup_nil, ?_, ?_, ?_, ?_, ?_⟩, trivial, trivial, ?_⟩
  · intro d waits
    cases waits
  · intro p pd found
    cases found
  · intro p pd found
    cases found
  · intro pad member
    cases member
  · intro data member
    cases member
  · intro job callback result member
    cases member

/-! ## The laws -/

/-- The handlers that `then`, `catch` and `finally` stand for; a `finally` without a callback
lets everything pass. -/
def links (f : Fun) (args : List Value) : Option (Handler × Handler) :=
  let arg i := args.getD i .undefined
  match f with
  | .js_promise_then =>
    some (handlerOf (arg 0) .identity_func, handlerOf (arg 1) .thrower_func)
  | .js_promise_catch => some (.identity_func, handlerOf (arg 0) .thrower_func)
  | .js_promise_finally =>
    match (arg 0).callable with
    | some g => some (.finally_fulfill_wrapper g, .finally_reject_wrapper g)
    | none => some (.identity_func, .thrower_func)
  | _ => none

/-- A call of `then`, `catch` or `finally` on a promise registers its handlers and gives the
derived promise. -/
def Registers (m next : Machine) : Prop :=
  ∀ f p args pd handlers, m.control = .call f (.promise p) args →
    m.world.promises[p]? = some pd → links f args = some handlers →
      next.control = .back (.value (.promise m.world.newId)) ∧
        ∃ pd', next.world.promises[p]? = some pd' ∧
          pd'.registered = pd.registered ++ [m.world.registration handlers.1 handlers.2]

def Ends (m : Machine) : Prop :=
  ∀ job callback result rest answer, m.stack = .resolving job callback result :: rest →
    m.control = .back answer → job.Outcome callback result m.world

def PassesOn (m : Machine) (event : Event) : Prop :=
  ∀ next, m.step event = some next → m.Registers next ∧ m.world.Schedules next.world

theorem Whole.ends (whole : m.Whole) : m.Ends := by
  intro job callback result rest answer stack back
  have on := whole.control
  rw [back, stack] at on
  have member : Frame.resolving job callback result ∈ m.stack := by
    rw [stack]
    exact mem_cons_self
  obtain ⟨gives, passes⟩ := whole.passes job callback result member
  exact job.outcome_of_settled callback result gives passes on

theorem thenWith_registers {pd : LRPromiseData} (found : m.world.promises[p]? = some pd)
    (method : String) (on_fulfilled on_rejected : Handler) :
    (m.thenWith method (.promise p) on_fulfilled on_rejected).control =
        .back (.value (.promise m.world.newId)) ∧
      ∃ pd', (m.thenWith method (.promise p) on_fulfilled on_rejected).world.promises[p]? =
          some pd' ∧
        pd'.registered = pd.registered ++ [m.world.registration on_fulfilled on_rejected] := by
  have data : m.promiseData (.promise p) = some (p, pd) := by
    unfold promiseData
    dsimp only
    rw [found]
    rfl
  have bound : p < (m.world.promises ++ [promise_data_new true]).length := by
    rw [length_append]
    exact Nat.lt_add_right _ (List.getElem?_eq_some_iff.mp found).1
  unfold thenWith
  rw [data]
  refine ⟨rfl, ?_⟩
  dsimp only [answer]
  rw [promise_then_eq]
  refine ⟨_, List.getElem?_set_self bound, ?_⟩
  unfold LRPromiseData.extended
  split <;> rfl

theorem registers_of_passing (passing : m.Passing event)
    (taken : m.step event = some next) : m.Registers next := by
  intro f p args pd handlers calls found linked
  rcases m.step_cases taken with ⟨rfl, advances⟩ | ⟨program, _⟩
  · unfold advance at advances
    rw [calls] at advances
    cases advances
    cases f with
    | js_promise_then | js_promise_catch =>
      cases linked
      exact thenWith_registers found _ _ _
    | js_promise_finally =>
      unfold Passing at passing
      simp only [calls] at passing
      unfold links at linked
      dsimp only at linked
      unfold enter js_promise_finally
      dsimp only
      cases first : (args.getD 0 .undefined).callable with
      | some g =>
        rw [first] at linked
        cases linked
        exact thenWith_registers found _ _ _
      | none =>
        rw [first] at linked
        cases linked
        have second := passing first
        unfold js_promise_then handlerOf
        rw [first, second]
        exact thenWith_registers found _ _ _
    | _ => cases linked
  · rw [program] at calls
    cases calls

/-- Under the condition a `then`, `catch` or `finally` registers its handlers, jobs carry the
results of their promises, each derived promise is pending as long as it waits, and ends as the law
says. -/
theorem chains_pass_on (events : List Event) (passing : Runs.Throughout step Passing start events) :
    Runs.Throughout step PassesOn start events ∧
      ∀ reached, Runs.after step start events = some reached →
        reached.Ends ∧ ∀ d ∈ reached.world.waiting, reached.world.isPending d = true := by
  have keeps : ∀ (m : Machine) event next, m.Whole → m.Passing event →
      m.step event = some next → next.Whole :=
    fun m _ _ whole passing taken => (Goes.step whole passing taken).whole
  constructor
  · refine Runs.Throughout.of_invariant Whole keeps ?_ whole_start passing
    intro m event whole passing next taken
    exact ⟨registers_of_passing passing taken, (Goes.step whole passing taken).schedules⟩
  · intro reached arrives
    have whole := Runs.Throughout.invariant_after keeps whole_start passing arrives
    refine ⟨whole.ends, fun d waits => ?_⟩
    obtain ⟨pd, found, _, pending, _⟩ :=
      whole.linear.isOpen d (mem_append_right _ waits)
    exact isPending_iff.mpr ⟨pd, found, pending⟩

instance (job : JobData) (callback : Option Result) (result : Result) :
    Decidable (job.Passes callback result) := by
  unfold JobData.Passes
  split
  · split <;> infer_instance
  · infer_instance
  · infer_instance
  · infer_instance
  · split <;> infer_instance
  · infer_instance
  · infer_instance

/-- `Passing` as a test. -/
def passes (m : Machine) : Event → Bool
  | .native =>
    match m.control, m.stack with
    | .back result, .handler job callback :: _ => decide (job.Passes callback result)
    | .call .js_promise_finally _ args, _ =>
      (args.getD 0 .undefined).callable.isSome || (args.getD 1 .undefined).callable.isNone
    | _, _ => true
  | _ => true

theorem passes_iff {m : Machine} : m.passes event = true ↔ m.Passing event := by
  unfold passes Passing
  split
  · split
    · exact decide_eq_true_iff
    · next args _ =>
        cases (args.getD 0 .undefined).callable <;> simp
    · exact iff_of_true rfl trivial
  · exact iff_of_true rfl trivial

instance (m : Machine) (event : Event) : Decidable (m.Passing event) :=
  decidable_of_iff _ passes_iff

/-- `Promise.resolve(1).then(f).catch().finally(g)`. -/
def sampleChain : List Event :=
  [.invoke .js_promise_resolve .undefined [.plain 1], .native, .native,
    .invoke .js_promise_then (.promise 0) [.function (.user 0)], .native, .native,
    .invoke .js_promise_catch (.promise 1) [], .native, .native,
    .invoke .js_promise_finally (.promise 2) [.function (.user 1)], .native, .native,
    .drain, .native, .native, .finish (.plain 7), .native, .native, .native, .native,
    .drain, .native, .native, .native, .native, .native,
    .drain, .native, .native, .finish .undefined, .native, .native, .native, .native, .native]

theorem chains_pass_on_sample :
    (Runs.after step start sampleChain).map
        (fun m => m.world.promises.map fun pd => (pd.state, pd.result)) =
      some [(.fulfilled, .plain 1), (.fulfilled, .plain 7), (.fulfilled, .plain 7),
        (.fulfilled, .plain 7)] ∧
      Runs.Throughout step PassesOn start sampleChain :=
  ⟨by decide, (chains_pass_on sampleChain (by decide)).1⟩

/-- `Promise.reject(5).then()`: the derived promise is rejected with another error. -/
def rejectedChain : List Event :=
  [.invoke .js_promise_reject .undefined [.plain 5], .native, .native,
    .invoke .js_promise_then (.promise 0) [], .native, .native, .drain, .native, .native, .native]

theorem reason_replaced :
    ¬∀ (events : List Event) (reached : Machine), Runs.after step start events = some reached →
      reached.Ends := by
  intro all
  have ends := all rejectedChain _ (some_get (by decide)).symm
  obtain ⟨pd, found, _, result⟩ := ends ⟨.reject, .thrower_func, .plain 5, 1, 0⟩ none
    (.exception (.error "rejected")) [] (.value .undefined) (by decide) (by decide)
  have same := (congrArg (Option.map LRPromiseData.result) found).trans (congrArg some result)
  revert same
  decide

end Machine

end LRJS.Promises
