import LRJS.Library.RefCounts
import LRJS.Library.Runs

/-!
# Who holds the resolving functions

The objects around a promise (`lr_promise.c`) with their reference counts: a pair of resolving
functions shares one record, which the resolve function frees with itself; reactions and jobs hold
references of their own.  When a promise is settled, and with what, is left to the events.
-/

namespace LRJS.ResolveRecords

open RefCounts

inductive Ref where
  | promise (p : Nat)
  | resolve (i : Nat)
  | reject (i : Nat)
  deriving DecidableEq

abbrev Value :=
  Option Ref

inductive PromiseState where
  | pending
  | fulfilled
  | rejected
  deriving DecidableEq

structure LRPromiseReaction where
  handler : Value
  resolve : Ref
  reject : Ref
  promise : Ref
  deriving DecidableEq

def LRPromiseReaction.refs (reaction : LRPromiseReaction) : List Ref :=
  reaction.handler.toList ++ [reaction.resolve, reaction.reject, reaction.promise]

structure LRPromiseData where
  state : PromiseState
  result : Value
  fulfill_reactions : List LRPromiseReaction
  reject_reactions : List LRPromiseReaction
  deriving DecidableEq

def LRPromiseData.refs (pd : LRPromiseData) : List Ref :=
  pd.result.toList ++ pd.fulfill_reactions.flatMap LRPromiseReaction.refs ++
    pd.reject_reactions.flatMap LRPromiseReaction.refs

structure PromiseResolveData where
  promise : Ref
  released : Nat
  deriving DecidableEq

def PromiseResolveData.refs (data : PromiseResolveData) : List Ref :=
  if data.released = 0 then [data.promise] else []

/-- A pair of resolving functions: the record of the resolve function, that of the reject function
if any, and if the resolve function has a `data_free`. -/
structure Pair where
  data : PromiseResolveData
  own : Option PromiseResolveData
  data_free : Bool
  deriving DecidableEq

def Pair.records (pair : Pair) : List PromiseResolveData :=
  pair.data :: pair.own.toList

def Pair.refs (pair : Pair) : List Ref :=
  pair.records.flatMap PromiseResolveData.refs

structure JobData where
  handler : Value
  value : Value
  resolve : Ref
  reject : Ref
  released : Nat
  deriving DecidableEq

/-- `job_data_new`. -/
def LRPromiseReaction.job (reaction : LRPromiseReaction) (value : Value) : JobData :=
  ⟨reaction.handler, value, reaction.resolve, reaction.reject, 0⟩

def JobData.all (job : JobData) : List Ref :=
  job.handler.toList ++ job.value.toList ++ [job.resolve, job.reject]

def JobData.refs (job : JobData) : List Ref :=
  if job.released = 0 then job.all else []

/-- Beside the objects: the queue and the jobs under way, the references of the program and of
native code, those still to be freed, and those that nobody frees. -/
structure State where
  ref_count : Ref → Nat
  promises : List LRPromiseData
  pairs : List Pair
  job_data : List JobData
  jobs : List Nat
  running : List Nat
  held : List Ref
  dropping : List Ref
  leaked : List Ref
  ended : Bool

namespace State

variable (s : State)

def users : List Ref :=
  s.held ++ s.promises.flatMap LRPromiseData.refs ++ s.job_data.flatMap JobData.refs

def places : List Ref :=
  s.users ++ s.pairs.flatMap Pair.refs ++ s.dropping ++ s.leaked

/-- `lr_dup_value` for some references.  A new object comes to its first reference the same
way. -/
def lr_dup_value (refs : List Ref) : State :=
  { s with ref_count := dup s.ref_count refs }

/-- `lr_free_value` for some references. -/
def lr_free_value (refs : List Ref) : State :=
  { s with dropping := refs ++ s.dropping }

def newPromise : Ref :=
  .promise s.promises.length

def lr_new_promise : State :=
  let pd : LRPromiseData := ⟨.pending, none, [], []⟩
  { s.lr_dup_value [s.newPromise] with promises := s.promises ++ [pd] }

def resolve_fn : Ref :=
  .resolve s.pairs.length

def reject_fn : Ref :=
  .reject s.pairs.length

/-- The two functions with their record; the source writes this out for the constructor, a thenable,
`then` and `Promise.all`. -/
def createResolvingFunctions (promise : Ref) : State :=
  let pair : Pair := ⟨⟨promise, 0⟩, none, true⟩
  { s.lr_dup_value [promise, s.resolve_fn, s.reject_fn] with pairs := s.pairs ++ [pair] }

def lr_new_promise_capability : State :=
  let promise := s.newPromise
  let resolve_func := s.resolve_fn
  let reject_func := s.reject_fn
  let pair : Pair := ⟨⟨promise, 0⟩, some ⟨promise, 0⟩, false⟩
  let s := s.lr_new_promise.lr_dup_value [promise, promise, resolve_func, reject_func]
  { s with
    pairs := s.pairs ++ [pair]
    held := [promise, resolve_func, reject_func] ++ s.held }

def lr_promise_trigger_reaction (reaction : LRPromiseReaction) (value : Value) : State :=
  let jd := reaction.job value
  { s.lr_dup_value jd.all with
    job_data := s.job_data ++ [jd]
    jobs := s.jobs ++ [s.job_data.length] }

def leak (refs : List Ref) : State :=
  { s with leaked := refs ++ s.leaked }

/-- The two reactions of `js_promise_then` are stored, or one is triggered; what is stored or put
into a job takes references of its own, and only the unused reaction gives its references back. -/
def addReactions (p : Nat) (pd : LRPromiseData) (fulfill_reaction reject_reaction :
    LRPromiseReaction) : State :=
  match pd.state with
  | .pending =>
    let waiting := { pd with
      fulfill_reactions := pd.fulfill_reactions ++ [fulfill_reaction]
      reject_reactions := pd.reject_reactions ++ [reject_reaction] }
    let s := s.lr_dup_value (fulfill_reaction.refs ++ reject_reaction.refs)
    let s := { s with promises := s.promises.set p waiting }
    s.leak (fulfill_reaction.refs ++ reject_reaction.refs)
  | .fulfilled =>
    let s := s.lr_promise_trigger_reaction fulfill_reaction pd.result
    (s.leak fulfill_reaction.refs).lr_free_value reject_reaction.refs
  | .rejected =>
    let s := s.lr_promise_trigger_reaction reject_reaction pd.result
    (s.leak reject_reaction.refs).lr_free_value fulfill_reaction.refs

def js_promise_then (p : Nat) (pd : LRPromiseData) (on_fulfilled on_rejected : Value) : State :=
  let derived_promise := s.newPromise
  let resolve_fn := s.resolve_fn
  let reject_fn := s.reject_fn
  let handlers := on_fulfilled.toList ++ on_rejected.toList
  let s := s.lr_dup_value handlers
  let s := s.lr_new_promise.createResolvingFunctions derived_promise
  let fulfill_reaction : LRPromiseReaction :=
    ⟨on_fulfilled, resolve_fn, reject_fn, derived_promise⟩
  let reject_reaction : LRPromiseReaction :=
    ⟨on_rejected, resolve_fn, reject_fn, derived_promise⟩
  let s := s.lr_dup_value (fulfill_reaction.refs ++ reject_reaction.refs)
  let s := s.addReactions p pd fulfill_reaction reject_reaction
  let dropping := s.dropping ++ handlers ++ [resolve_fn, reject_fn]
  { s with dropping := dropping, held := [derived_promise] ++ s.held }

/-- A promise gets its outcome: its reactions are triggered and keep their references, and the
others are freed. -/
def outcome (p : Nat) (pd : LRPromiseData) (state : PromiseState) (value : Value)
    (triggered unused : List LRPromiseReaction) : State :=
  let s := { s.lr_dup_value value.toList with
    promises := s.promises.set p ⟨state, value, [], []⟩ }
  let s := triggered.foldl (fun s reaction => s.lr_promise_trigger_reaction reaction value) s
  let s := s.leak (pd.result.toList ++ triggered.flatMap LRPromiseReaction.refs)
  s.lr_free_value (unused.flatMap LRPromiseReaction.refs)

/-- The end of `lr_promise_resolve_internal` or `lr_promise_reject_internal`. -/
def settle (p : Nat) (pd : LRPromiseData) (rejected : Bool) (value : Value) : State :=
  if rejected = true then
    s.outcome p pd .rejected value pd.reject_reactions pd.fulfill_reactions
  else
    s.outcome p pd .fulfilled value pd.fulfill_reactions pd.reject_reactions

/-- Once the last reference is gone, a promise frees what it holds, and a resolve function with a
`data_free` its record. -/
def lr_free_object : Ref → State
  | .promise p =>
    match s.promises[p]? with
    | some pd =>
      { s with promises := s.promises.set p ⟨pd.state, none, [], []⟩ }.lr_free_value pd.refs
    | none => s
  | .resolve i =>
    match s.pairs[i]? with
    | some ⟨data, own, true⟩ =>
      let freed := { data with released := data.released + 1 }
      { s with pairs := s.pairs.set i ⟨freed, own, true⟩ }.lr_free_value [data.promise]
    | _ => s
  | .reject _ => s

/-- The next reference that `lr_free_value` has to free. -/
def sweep (r : Ref) (rest : List Ref) : State :=
  let s := { s with ref_count := free s.ref_count r, dropping := rest }
  if s.ref_count r = 0 then s.lr_free_object r else s

def finish (id : Nat) (jd : JobData) (rest : List Nat) : State :=
  { s with
    job_data := s.job_data.set id { jd with released := jd.released + 1 }
    running := rest }.lr_free_value jd.all

/-- The pass of `lr_runtime_free` over the functions that are still there. -/
def freeRecords (i : Nat) (pair : Pair) : Pair :=
  if pair.data_free = true ∧ 0 < s.ref_count (.resolve i) then
    { pair with data := { pair.data with released := pair.data.released + 1 } }
  else
    pair

def lr_runtime_free : State :=
  { s with pairs := s.pairs.mapIdx s.freeRecords, ended := true }

def recordOf : Ref → Option PromiseResolveData
  | .promise _ => none
  | .resolve i => s.pairs[i]?.map Pair.data
  | .reject i => s.pairs[i]?.map fun pair => pair.own.getD pair.data

end State

inductive Event where
  /-- `lr_new_promise` for native code. -/
  | newPromise
  | resolvingFunctions (p : Nat)
  | capability
  | chain (p : Nat) (on_fulfilled on_rejected : Value)
  | settle (p : Nat) (rejected : Bool) (value : Value)
  | hold (r : Ref)
  | drop (refs : List Ref)
  | call (r : Ref)
  | begin
  | finish
  | sweep
  | runtimeFree
  deriving DecidableEq

namespace State

variable (s : State)

def Has (v : Value) : Prop :=
  ∀ r ∈ v, r ∈ s.users

instance (v : Value) : Decidable (s.Has v) :=
  inferInstanceAs (Decidable (∀ r ∈ v, r ∈ s.users))

def act : Event → Option State
  | .newPromise => some { s.lr_new_promise with held := [s.newPromise] ++ s.held }
  | .resolvingFunctions p =>
    if .promise p ∈ s.users then
      let functions := [s.resolve_fn, s.reject_fn]
      some { s.createResolvingFunctions (.promise p) with held := functions ++ s.held }
    else none
  | .capability => some s.lr_new_promise_capability
  | .chain p on_fulfilled on_rejected =>
    match s.promises[p]? with
    | some pd =>
      if s.Has (some (.promise p)) ∧ s.Has on_fulfilled ∧ s.Has on_rejected then
        some (s.js_promise_then p pd on_fulfilled on_rejected)
      else none
    | none => none
  | .settle p rejected value =>
    match s.promises[p]? with
    | some pd =>
      if 0 < s.ref_count (.promise p) ∧ s.Has value then some (s.settle p pd rejected value)
      else none
    | none => none
  | .hold r =>
    if r ∈ s.users then some { s.lr_dup_value [r] with held := [r] ++ s.held } else none
  | .drop refs =>
    if ∀ r ∈ refs, refs.count r ≤ s.held.count r then
      some ({ s with held := s.held.diff refs }.lr_free_value refs)
    else none
  | .call r => if r ∈ s.users then some s else none
  | .begin =>
    match s.jobs with
    | id :: rest => some { s with jobs := rest, running := id :: s.running }
    | [] => none
  | .finish =>
    match s.running with
    | id :: rest => s.job_data[id]?.map fun jd => s.finish id jd rest
    | [] => none
  | .sweep => none
  | .runtimeFree => if s.running = [] then some s.lr_runtime_free else none

def step (event : Event) : Option State :=
  if s.ended = true then
    none
  else
    match s.dropping with
    | [] => s.act event
    | r :: rest => if event = .sweep then some (s.sweep r rest) else none

def start : State :=
  ⟨fun _ => 0, [], [], [], [], [], [], [], [], false⟩

end State

end LRJS.ResolveRecords
