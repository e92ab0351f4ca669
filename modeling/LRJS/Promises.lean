import LRJS.Library.Runs
import Mathlib.Data.List.Basic

/-!
# Promises

Promises, their reactions and the job queue (`lr_promise.c`), as a machine that
takes one step at a time.  Where native code calls a function of the program,
or looks up a `then`, it waits on a stack; what the program does meanwhile is
an event for each of its steps, and it may do anything.
-/

namespace LRJS.Promises

inductive Fun where
  | user (f : Nat)
  | native (f : Nat)
  | promise_resolve_func (rd : Nat)
  | promise_reject_func (rd : Nat)
  | js_promise_constructor
  | js_promise_then
  | js_promise_catch
  | js_promise_finally
  | js_promise_resolve
  | js_promise_reject
  | js_promise_all
  | js_promise_race
  | js_promise_all_settled
  | js_promise_any
  deriving DecidableEq

/-- What a reaction calls: a function that the program has given, or one of the
native functions that only reactions hold. -/
inductive Handler where
  | function (f : Fun)
  | identity_func
  | thrower_func
  | finally_fulfill_wrapper (on_finally : Fun)
  | finally_reject_wrapper (on_finally : Fun)
  | promise_all_fulfill (pad index : Nat)
  | promise_all_reject (pad : Nat)
  deriving DecidableEq

inductive Value where
  | undefined
  /-- A number, a boolean, `null` or a symbol. -/
  | plain (n : Nat)
  | text (s : String)
  | exception
  /-- A `TypeError`. -/
  | error (message : String)
  | object (a : Nat)
  | array (a : Nat)
  /-- A record of `Promise.allSettled`. -/
  | fulfilledEntry (value : Value)
  | rejectedEntry (reason : Value)
  | function (f : Fun)
  | promise (p : Nat)
  deriving DecidableEq

/-- `lr_is_object`. -/
def Value.isObject : Value → Bool
  | .undefined | .plain _ | .text _ | .exception => false
  | .error _ | .object _ | .array _ | .fulfilledEntry _ | .rejectedEntry _ | .function _
  | .promise _ => true

/-- `lr_is_function`. -/
def Value.callable : Value → Option Fun
  | .function f => some f
  | _ => none

inductive Result where
  | value (v : Value)
  | exception (e : Value)
  /-- A `throw` of the program: the interpreter keeps it in a flag of its own, and its
  native caller gets `undefined`. -/
  | thrown (e : Value)
  deriving DecidableEq

def Result.taken : Result → Except Value Value
  | .value v => .ok v
  | .exception e => .error e
  | .thrown _ => .ok .undefined

inductive PromiseState where
  | pending
  | fulfilled
  | rejected
  deriving DecidableEq

/-- The two resolving functions of a reaction act on its derived promise, and
nothing else holds them. -/
structure LRPromiseReaction where
  handler : Handler
  promise : Nat
  deriving DecidableEq

structure Registration where
  onFulfilled : LRPromiseReaction
  onRejected : LRPromiseReaction
  deriving DecidableEq

/-- Beside the data of the source: all registrations so far, and if the promise
is derived, that is, made by `js_promise_then`. -/
structure LRPromiseData where
  state : PromiseState
  result : Value
  fulfill_reactions : List LRPromiseReaction
  reject_reactions : List LRPromiseReaction
  registered : List Registration
  derived : Bool
  deriving DecidableEq

def promise_data_new (derived : Bool) : LRPromiseData :=
  ⟨.pending, .undefined, [], [], [], derived⟩

/-- The record behind a pair of resolving functions; also if one of them has been called, and which
object has got them for its `then`. -/
structure PromiseResolveData where
  promise : Nat
  thenable : Option Value
  called : Bool
  deriving DecidableEq

/-- `job_fulfill_reaction` and `job_reject_reaction`. -/
inductive JobKind where
  | fulfill
  | reject
  deriving DecidableEq

structure JobData where
  kind : JobKind
  handler : Handler
  value : Value
  promise : Nat
  source : Nat
  deriving DecidableEq

structure PromiseAllData where
  remaining : Int
  total : Nat
  result_arr : Nat
  result : Nat
  rejected : Bool
  deriving DecidableEq

structure World where
  promises : List LRPromiseData
  resolve_data : List PromiseResolveData
  pads : List PromiseAllData
  arrays : List (List Value)
  jobs : List JobData
  scheduled : List JobData
  current_exception : Value
  deriving DecidableEq

def LRPromiseReaction.job (reaction : LRPromiseReaction) (kind : JobKind) (value : Value)
    (source : Nat) : JobData :=
  ⟨kind, reaction.handler, value, reaction.promise, source⟩

namespace World

variable (w : World)

def lr_new_promise (derived : Bool) : World :=
  { w with promises := w.promises ++ [promise_data_new derived] }

def newId : Nat :=
  w.promises.length

def resolve_data_new (promise : Nat) (thenable : Option Value) : World :=
  { w with resolve_data := w.resolve_data ++ [⟨promise, thenable, false⟩] }

def newData : Nat :=
  w.resolve_data.length

/-- `lr_enqueue_job`, for each of some jobs. -/
def lr_enqueue_jobs (jobs : List JobData) : World :=
  { w with jobs := w.jobs ++ jobs, scheduled := w.scheduled ++ jobs }

def isPending (p : Nat) : Bool :=
  match w.promises[p]? with
  | some pd => pd.state == .pending
  | none => false

/-- Give a promise its outcome, whatever its state, and trigger its reactions; the source writes
this out for each outcome. -/
def settle (p : Nat) (kind : JobKind) (result : Value) : World :=
  match w.promises[p]? with
  | none => w
  | some pd =>
    let reactions : List LRPromiseReaction :=
      match kind with
      | .fulfill => pd.fulfill_reactions
      | .reject => pd.reject_reactions
    let state :=
      match kind with
      | .fulfill => PromiseState.fulfilled
      | .reject => PromiseState.rejected
    let settled := ⟨state, result, [], [], pd.registered, pd.derived⟩
    let w := { w with promises := w.promises.set p settled }
    w.lr_enqueue_jobs (reactions.map fun reaction => reaction.job kind result p)

def lr_promise_reject_internal (p : Nat) (reason : Value) : World :=
  if w.isPending p then w.settle p .reject reason else w

/-- The registration of `js_promise_then`, which derives the next new promise. -/
def registration (on_fulfilled on_rejected : Handler) : Registration :=
  ⟨⟨on_fulfilled, w.newId⟩, ⟨on_rejected, w.newId⟩⟩

/-- `js_promise_then` of a promise with its data. -/
def promise_then (p : Nat) (pd : LRPromiseData) (on_fulfilled on_rejected : Handler) : World :=
  let added := w.registration on_fulfilled on_rejected
  let registered := pd.registered ++ [added]
  let w := w.lr_new_promise true
  match pd.state with
  | .pending =>
    let waiting := ⟨pd.state, pd.result, pd.fulfill_reactions ++ [added.onFulfilled],
      pd.reject_reactions ++ [added.onRejected], registered, pd.derived⟩
    { w with promises := w.promises.set p waiting }
  | .fulfilled =>
    let w := { w with promises := w.promises.set p { pd with registered := registered } }
    w.lr_enqueue_jobs [added.onFulfilled.job .fulfill pd.result p]
  | .rejected =>
    let w := { w with promises := w.promises.set p { pd with registered := registered } }
    w.lr_enqueue_jobs [added.onRejected.job .reject pd.result p]

/-- A new promise with an outcome, as `js_promise_resolve` and `js_promise_reject` make it. -/
def newSettled (state : PromiseState) (result : Value) : World :=
  { w with promises := w.promises ++ [⟨state, result, [], [], [], false⟩] }

def newArray (elements : List Value) : World × Nat × List Value :=
  ({ w with arrays := w.arrays ++ [elements] }, w.arrays.length, elements)

/-- The array that a combinator goes through, with its elements.  What is no array gives a new,
empty one. -/
def toArray (iterable : Value) : World × Nat × List Value :=
  match iterable with
  | .array a =>
    match w.arrays[a]? with
    | some elements => (w, a, elements)
    | none => w.newArray []
  | _ => w.newArray []

/-- Write the value of an element of `Promise.all` into its array, and count it. -/
def storeResult (pad : Nat) (pd : PromiseAllData) (index : Nat) (value : Value) : World :=
  { w with
    pads := w.pads.set pad { pd with remaining := pd.remaining - 1 }
    arrays := w.arrays.modify pd.result_arr fun elements => elements.set index value }

/-- An element of `Promise.all` is rejected. -/
def markRejected (pad : Nat) (pd : PromiseAllData) : World :=
  { w with pads := w.pads.set pad { pd with rejected := true } }

def markCalled (rd : Nat) : World :=
  { w with resolve_data := w.resolve_data.modify rd fun data => { data with called := true } }

/-- What a native caller makes of a value that it gets: the mark is an exception, and
`lr_get_exception` gives the last one. -/
def returned (v : Value) : Result :=
  if v = .exception then .exception w.current_exception else .value v

end World

inductive Frame where
  | body (native : Bool)
  /-- `js_promise_constructor` waits for the executor. -/
  | executor (p : Nat)
  /-- `lr_promise_resolve_internal` waits for the lookup of `then`. -/
  | getter (p : Nat) (value : Value)
  /-- `lr_promise_resolve_internal` waits for the call of `then`. -/
  | thenCall (p : Nat)
  /-- A job waits for its handler; how the callback of a `finally` has ended is noted. -/
  | handler (job : JobData) (callback : Option Result)
  /-- A job waits for a resolving function of its derived promise; what its
  handler gave is noted. -/
  | resolving (job : JobData) (callback : Option Result) (result : Result)
  | finallyFulfill (original : Value)
  | finallyReject
  | combined (p : Nat)
  deriving DecidableEq

inductive Control where
  | program
  | call (f : Fun) (this : Value) (args : List Value)
  | handle (h : Handler) (v : Value)
  | resolve (p : Nat) (v : Value)
  | reject (p : Nat) (e : Value)
  | back (result : Result)
  deriving DecidableEq

structure Machine where
  world : World
  stack : List Frame
  control : Control
  deriving DecidableEq

namespace Machine

variable (m : Machine)

def answer (w : World) (result : Result) : Machine :=
  ⟨w, m.stack, .back result⟩

def raise (w : World) (e : Value) : Machine :=
  ⟨{ w with current_exception := e }, m.stack, .back (.exception e)⟩

def run (native : Bool) : Machine :=
  ⟨m.world, .body native :: m.stack, .program⟩

/-- `lr_promise_resolve_internal`; the caller of it gets `undefined`. -/
def lr_promise_resolve_internal (p : Nat) (value : Value) : Machine :=
  if m.world.isPending p = false then
    m.answer m.world (.value .undefined)
  else if value = .promise p then
    m.answer (m.world.settle p .reject (.text "Chaining cycle detected for promise"))
      (.value .undefined)
  else if value.isObject = true then
    -- the lookup of `then` may run an accessor
    ⟨m.world, .body false :: .getter p value :: m.stack, .program⟩
  else
    m.answer (m.world.settle p .fulfill value) (.value .undefined)

def promise_resolve_func (rd : Nat) (value : Value) : Machine :=
  match m.world.resolve_data[rd]? with
  | none => m.answer m.world (.value .undefined)
  | some data =>
    { m with world := m.world.markCalled rd }.lr_promise_resolve_internal data.promise value

def promise_reject_func (rd : Nat) (reason : Value) : Machine :=
  match m.world.resolve_data[rd]? with
  | none => m.answer m.world (.value .undefined)
  | some data =>
    m.answer ((m.world.markCalled rd).lr_promise_reject_internal data.promise reason)
      (.value .undefined)

def js_promise_constructor (executor : Value) : Machine :=
  match executor.callable with
  | none =>
    m.raise (m.world.lr_new_promise false)
      (.error "Promise resolver undefined is not a function")
  | some executor =>
    let w := m.world
    ⟨(w.lr_new_promise false).resolve_data_new w.newId none, .executor w.newId :: m.stack,
      .call executor .undefined [.function (.promise_resolve_func w.newData),
        .function (.promise_reject_func w.newData)]⟩

def promiseData (this : Value) : Option (Nat × LRPromiseData) :=
  match this with
  | .promise p => m.world.promises[p]?.map fun pd => (p, pd)
  | _ => none

/-- `js_promise_then` with its handlers; `method` is the name in the message. -/
def thenWith (method : String) (this : Value) (on_fulfilled on_rejected : Handler) : Machine :=
  match m.promiseData this with
  | none =>
    m.raise m.world
      (.error ("Method Promise.prototype." ++ method ++ " called on incompatible receiver"))
  | some (p, pd) =>
    m.answer (m.world.promise_then p pd on_fulfilled on_rejected)
      (.value (.promise m.world.newId))

/-- The handler for an argument of `js_promise_then`. -/
def handlerOf (argument : Value) (missing : Handler) : Handler :=
  match argument.callable with
  | some f => .function f
  | none => missing

def js_promise_then (method : String) (this on_fulfilled on_rejected : Value) : Machine :=
  m.thenWith method this (handlerOf on_fulfilled .identity_func)
    (handlerOf on_rejected .thrower_func)

def js_promise_catch (this on_rejected : Value) : Machine :=
  m.js_promise_then "catch" this .undefined on_rejected

/-- `js_promise_finally`: with no callback it takes a second argument for `then`. -/
def js_promise_finally (this on_finally second : Value) : Machine :=
  match on_finally.callable with
  | none => m.js_promise_then "finally" this on_finally second
  | some f =>
    m.thenWith "finally" this (.finally_fulfill_wrapper f) (.finally_reject_wrapper f)

def js_promise_resolve (value : Value) : Machine :=
  match value with
  | .promise p => m.answer m.world (.value (.promise p))
  | _ => m.answer (m.world.newSettled .fulfilled value) (.value (.promise m.world.newId))

def js_promise_reject (reason : Value) : Machine :=
  m.answer (m.world.newSettled .rejected reason) (.value (.promise m.world.newId))

def resolveResult (w : World) (p : Nat) (value : Value) : Machine :=
  Machine.lr_promise_resolve_internal ⟨w, .combined p :: m.stack, m.control⟩ p value

/-- `js_promise_all` adds its two reactions to a promise. -/
def promise_all_watch (pad index : Nat) (w : World) (q : Nat) : World :=
  match w.promises[q]? with
  | some pd => w.promise_then q pd (.promise_all_fulfill pad index) (.promise_all_reject pad)
  | none => w

/-- One turn of the loop in `js_promise_all`. -/
def promise_all_item (pad : Nat) (w : World) (index : Nat) (item : Value) : World :=
  match item with
  | .promise q => promise_all_watch pad index w q
  | _ => promise_all_watch pad index (w.newSettled .fulfilled item) w.newId

def js_promise_all (iterable : Value) : Machine :=
  let p := m.world.newId
  let (w, arr, elements) := (m.world.lr_new_promise false).toArray iterable
  if elements = [] then
    m.resolveResult w p (.array arr)
  else
    let pad := w.pads.length
    let data : PromiseAllData := ⟨elements.length, elements.length, arr, p, false⟩
    let w := { w with pads := w.pads ++ [data] }
    m.answer ((elements.zipIdx).foldl (fun w item => promise_all_item pad w item.2 item.1) w)
      (.value (.promise p))

def promise_all_fulfill (pad index : Nat) (value : Value) : Machine :=
  match m.world.pads[pad]? with
  | none => m.answer m.world (.value .undefined)
  | some pd =>
    if pd.rejected = true then
      m.answer m.world (.value .undefined)
    else
      let w := m.world.storeResult pad pd index value
      if pd.remaining - 1 ≤ 0 then
        Machine.lr_promise_resolve_internal ⟨w, m.stack, m.control⟩ pd.result
          (.array pd.result_arr)
      else
        m.answer w (.value .undefined)

def promise_all_reject (pad : Nat) (reason : Value) : Machine :=
  match m.world.pads[pad]? with
  | none => m.answer m.world (.value .undefined)
  | some pd =>
    if pd.rejected = true then
      m.answer m.world (.value .undefined)
    else
      m.answer ((m.world.markRejected pad pd).lr_promise_reject_internal pd.result reason)
        (.value .undefined)

def js_promise_race (iterable : Value) : Machine :=
  let p := m.world.newId
  let (w, _, elements) := (m.world.lr_new_promise false).toArray iterable
  match elements with
  | [] => m.answer w (.value (.promise p))
  | first :: _ => m.resolveResult w p first

/-- The record of `js_promise_all_settled` for an element. -/
def settledEntry (w : World) (item : Value) : Value :=
  match item with
  | .promise q =>
    match w.promises[q]? with
    | some ⟨.fulfilled, result, _, _, _, _⟩ => .fulfilledEntry result
    | some ⟨.rejected, result, _, _, _, _⟩ => .rejectedEntry result
    | _ => .fulfilledEntry .undefined
  | _ => .fulfilledEntry item

def js_promise_all_settled (iterable : Value) : Machine :=
  let p := m.world.newId
  let (w, arr, elements) := (m.world.lr_new_promise false).toArray iterable
  if elements = [] then
    m.resolveResult w p (.array arr)
  else
    let entries := elements.map (settledEntry w)
    m.resolveResult { w with arrays := w.arrays ++ [entries] } p (.array w.arrays.length)

/-- What `js_promise_any` finds in an element that it takes. -/
def anyValue (w : World) (item : Value) : Option Value :=
  match item with
  | .promise q =>
    match w.promises[q]? with
    | some ⟨.fulfilled, result, _, _, _, _⟩ => some result
    | _ => none
  | _ => some item

def js_promise_any (iterable : Value) : Machine :=
  let p := m.world.newId
  let (w, _, elements) := (m.world.lr_new_promise false).toArray iterable
  match elements.findSome? (anyValue w) with
  | some value => m.resolveResult w p value
  | none =>
    m.answer (w.lr_promise_reject_internal p (.text "All promises were rejected"))
      (.value (.promise p))

def enter (f : Fun) (this : Value) (args : List Value) : Machine :=
  let arg i := args.getD i .undefined
  match f with
  | .user _ => m.run false
  | .native _ => m.run true
  | .promise_resolve_func rd => m.promise_resolve_func rd (arg 0)
  | .promise_reject_func rd => m.promise_reject_func rd (arg 0)
  | .js_promise_constructor => m.js_promise_constructor (arg 0)
  | .js_promise_then => m.js_promise_then "then" this (arg 0) (arg 1)
  | .js_promise_catch => m.js_promise_catch this (arg 0)
  | .js_promise_finally => m.js_promise_finally this (arg 0) (arg 1)
  | .js_promise_resolve => m.js_promise_resolve (arg 0)
  | .js_promise_reject => m.js_promise_reject (arg 0)
  | .js_promise_all => m.js_promise_all (arg 0)
  | .js_promise_race => m.js_promise_race (arg 0)
  | .js_promise_all_settled => m.js_promise_all_settled (arg 0)
  | .js_promise_any => m.js_promise_any (arg 0)

def handle (h : Handler) (v : Value) : Machine :=
  match h with
  | .function f => { m with control := .call f .undefined [v] }
  | .identity_func => m.answer m.world (m.world.returned v)
  | .thrower_func => m.raise m.world (.error "rejected")
  | .finally_fulfill_wrapper on_finally =>
    ⟨m.world, .finallyFulfill v :: m.stack, .call on_finally .undefined []⟩
  | .finally_reject_wrapper on_finally =>
    ⟨m.world, .finallyReject :: m.stack, .call on_finally .undefined []⟩
  | .promise_all_fulfill pad index => m.promise_all_fulfill pad index v
  | .promise_all_reject pad => m.promise_all_reject pad v

/-- Note how the callback of a `finally` has ended. -/
def noteCallback (result : Result) : List Frame → List Frame
  | .handler job _ :: rest => .handler job (some result) :: rest
  | stack => stack

def resume (result : Result) : Machine :=
  match m.stack with
  | [] | .body _ :: _ => { m with control := .program }
  | .executor p :: rest =>
    match result.taken with
    | .ok _ => ⟨m.world, rest, .back (.value (.promise p))⟩
    | .error _ =>
      ⟨m.world.lr_promise_reject_internal p .exception, rest, .back (.value (.promise p))⟩
  | .getter p value :: rest =>
    match result.taken with
    | .ok (.function then_val) =>
      ⟨m.world.resolve_data_new p (some value), .thenCall p :: rest,
        .call then_val value [.function (.promise_resolve_func m.world.newData),
          .function (.promise_reject_func m.world.newData)]⟩
    | _ => ⟨m.world.settle p .fulfill value, rest, .back (.value .undefined)⟩
  | .thenCall p :: rest =>
    match result.taken with
    | .ok _ => ⟨m.world, rest, .back (.value .undefined)⟩
    | .error _ => ⟨m.world.settle p .reject .exception, rest, .back (.value .undefined)⟩
  | .handler job callback :: rest =>
    match result.taken with
    | .ok v => ⟨m.world, .resolving job callback result :: rest, .resolve job.promise v⟩
    | .error e => ⟨m.world, .resolving job callback result :: rest, .reject job.promise e⟩
  | .resolving _ _ _ :: rest => ⟨m.world, rest, .back (.value .undefined)⟩
  | .finallyFulfill original :: rest =>
    match result.taken with
    | .ok _ => ⟨m.world, noteCallback result rest, .back (m.world.returned original)⟩
    | .error e => ⟨m.world, noteCallback result rest, .back (m.world.returned e)⟩
  | .finallyReject :: rest =>
    match result.taken with
    | .ok _ => Machine.raise ⟨m.world, noteCallback result rest, m.control⟩ m.world
        (.error "finally rejected")
    | .error e => ⟨m.world, noteCallback result rest, .back (m.world.returned e)⟩
  | .combined p :: rest => ⟨m.world, rest, .back (.value (.promise p))⟩

inductive Event where
  | native
  | invoke (f : Fun) (this : Value) (args : List Value)
  | finish (v : Value)
  | fail (e : Value)
  /-- `lr_execute_pending_job`: of the event loop, or of an `await`. -/
  | drain
  | array (elements : List Value)
  deriving DecidableEq

def advance : Option Machine :=
  match m.control with
  | .program => none
  | .call f this args => some (m.enter f this args)
  | .handle h v => some (m.handle h v)
  | .resolve p v => some (m.lr_promise_resolve_internal p v)
  | .reject p e => some (m.answer (m.world.lr_promise_reject_internal p e) (.value .undefined))
  | .back result => some (m.resume result)

def act : Event → Option Machine
  | .native => none
  | .invoke f this args => some { m with control := .call f this args }
  | .finish v =>
    match m.stack with
    | .body _ :: rest => some ⟨m.world, rest, .back (m.world.returned v)⟩
    | _ => none
  | .fail e =>
    match m.stack with
    | .body true :: rest => some (Machine.raise ⟨m.world, rest, m.control⟩ m.world e)
    | .body false :: rest => some ⟨m.world, rest, .back (.thrown e)⟩
    | _ => none
  | .drain =>
    match m.world.jobs with
    | job :: rest =>
      some ⟨{ m.world with jobs := rest }, .handler job none :: m.stack,
        .handle job.handler job.value⟩
    | [] => none
  | .array elements =>
    some { m with world := { m.world with arrays := m.world.arrays ++ [elements] } }

def step (event : Event) : Option Machine :=
  match event, m.control with
  | .native, _ => m.advance
  | _, .program => m.act event
  | _, _ => none

def start : Machine :=
  ⟨⟨[], [], [], [], [], [], .undefined⟩, [], .program⟩

end Machine

end LRJS.Promises
