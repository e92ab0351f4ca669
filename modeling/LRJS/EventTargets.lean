import LRJS.Library.Broadcasts
import LRJS.Library.Runs
import Mathlib.Data.List.ReduceOption

/-!
# Event targets

`addEventListener`, `removeEventListener` and `dispatchEvent` of `lr_event.c`.  The listeners of a
target are the items of the array `__listeners`; a removal builds another array, while a dispatch
under way keeps the one it started with.  A listener runs between two rounds of the loop, and any
calls may be made then.
-/

namespace LRJS.EventTargets

open Broadcast

/-- The objects that `lr_is_function` accepts. -/
inductive LRFunction where
  | cfunction (name : String)
  | function
  | bytecodeFunc
  | proxy

/-- `lr_to_cstring` on a function; the name of a native one is cut at the end of `buf`. -/
def LRFunction.lr_to_cstring : LRFunction → String
  | .cfunction name =>
    String.ofList (("function " ++ name ++ "() { [native code] }").toList.take 127)
  | _ => "[object Object]"

/-- A function of the script, which never answers `JS_EXCEPTION`. -/
def LRFunction.scripted : LRFunction → Bool
  | .function | .bytecodeFunc => true
  | .cfunction _ | .proxy => false

/-- An item, with its `callback` and whether it is for one call. -/
abbrev Item := Entry Nat

/-- A dispatch in its loop: `listeners`, `len` and the next `i`. -/
structure Frame where
  target : Nat
  event : Nat
  listeners : Nat
  len : Nat
  i : Nat

/-- The arrays, the `__listeners` of targets, the dispatches under way (innermost first), the number
of items, the events with `__stopImmediate`, and the calls. -/
structure World where
  arrays : List (List (Option Item))
  listeners : Nat → Option Nat
  frames : List Frame
  next : Nat
  stopImmediate : List Nat
  calls : List (Nat × Item × Nat)

/-- What a program does; `none` is an argument that is missing or of the wrong type.  A listener
that throws answers `JS_EXCEPTION`, or leaves its error to the interpreter and answers
`undefined`. -/
inductive Action where
  | construct (target : Nat)
  | addEventListener (target : Nat) (listener : Option Nat) (once : Bool)
  | removeEventListener (target : Nat) (listener : Option Nat)
  | dispatchEvent (target : Nat) (event : Option Nat)
  | stopImmediatePropagation (event : Nat)
  | returns
  | leavesError
  | throws

/-- `JS_SetPropertyUint32` on an array. -/
def setUint32 (elements : List (Option Item)) (i : Nat) (item : Option Item) :
    List (Option Item) :=
  if i < elements.length then elements.set i item
  else elements ++ List.replicate (i - elements.length) none ++ [item]

namespace World

def start : World :=
  ⟨[], fun _ => none, [], 0, [], []⟩

variable (kind : Nat → LRFunction) (w : World)

def array (a : Nat) : List (Option Item) :=
  (w.arrays[a]?).getD []

/-- `JS_NewArray`, stored as `__listeners`. -/
def newListeners (target : Nat) (elements : List (Option Item)) : World :=
  { w with
    arrays := w.arrays ++ [elements]
    listeners := Function.update w.listeners target (some w.arrays.length) }

/-- `lr_event_target_addEventListener`: without a function it throws. -/
def lr_event_target_addEventListener (target : Nat) (listener : Option Nat) (once : Bool) :
    World :=
  match listener with
  | none => w
  | some callback =>
    let w := if (w.listeners target).isSome then w else w.newListeners target []
    let a := (w.listeners target).getD 0
    { w with
      arrays := w.arrays.set a (w.array a ++ [some ⟨w.next, callback, once⟩])
      next := w.next + 1 }

/-- The test of `lr_event_target_removeEventListener`. -/
def isMatch (callback : Nat) (item : Option Item) : Bool :=
  item.any fun item => (kind item.callback).lr_to_cstring == (kind callback).lr_to_cstring

/-- The loop of `lr_event_target_removeEventListener`. -/
def filtered (callback : Nat) (elements : List (Option Item)) : List (Option Item) :=
  elements.zipIdx.foldl (fun new (item, i) =>
    if isMatch kind callback item then new else setUint32 new i item) []

def lr_event_target_removeEventListener (target : Nat) (listener : Option Nat) : World :=
  match listener, w.listeners target with
  | some callback, some a => w.newListeners target (filtered kind callback (w.array a))
  | _, _ => w

def nextItem : List (Option Item) → Nat → Option (Item × Nat)
  | [], _ => none
  | none :: rest, i => nextItem rest (i + 1)
  | some item :: _, i => some (item, i + 1)

/-- The loop of `lr_event_target_dispatchEvent` up to the next call of a listener, or its
end. -/
def resume (frame : Frame) : World :=
  match nextItem (((w.array frame.listeners).take frame.len).drop frame.i) frame.i with
  | none => w
  | some (item, i) =>
    { w with
      frames := { frame with i } :: w.frames
      calls := w.calls ++ [(frame.target, item, frame.event)] }

def lr_event_target_dispatchEvent (target : Nat) (event : Option Nat) : World :=
  match event, w.listeners target with
  | some event, some a => w.resume ⟨target, event, a, (w.array a).length, 0⟩
  | _, _ => w

/-- The item whose listener runs. -/
def running (frame : Frame) : Option Item :=
  ((w.array frame.listeners)[frame.i - 1]?).join

def step : Action → Option World
  | .construct target => if w.listeners target = none then some (w.newListeners target []) else none
  | .addEventListener target listener once =>
    some (w.lr_event_target_addEventListener target listener once)
  | .removeEventListener target listener =>
    some (w.lr_event_target_removeEventListener kind target listener)
  | .dispatchEvent target event => some (w.lr_event_target_dispatchEvent target event)
  | .stopImmediatePropagation event =>
    some { w with stopImmediate := event :: w.stopImmediate }
  | .returns | .leavesError =>
    match w.frames with
    | [] => none
    | frame :: rest => some ({ w with frames := rest }.resume frame)
  | .throws =>
    match w.frames with
    | [] => none
    | frame :: rest =>
      if (w.running frame).any fun item => (kind item.callback).scripted then none
      else some { w with frames := rest }

def current (target : Nat) : List Item :=
  ((w.listeners target).elim [] w.array).reduceOption

def remaining (frame : Frame) : List Item :=
  (((w.array frame.listeners).take frame.len).drop frame.i).reduceOption

def spent (item : Item) : Bool :=
  item.once && w.calls.any (·.2.1 == item)

def due (frame : Frame) : List Item :=
  (w.remaining frame).filter fun item => !w.spent item

/-- The next listener is not a spent one, a removal finds no other function with the same text and
no dispatch has still to call it, and a dispatch ends early only if it has nothing left to call. -/
def Meets : Action → Prop
  | .construct _ | .addEventListener _ _ _ => True
  | .removeEventListener _ none | .dispatchEvent _ none => True
  | .removeEventListener target (some callback) =>
    (∀ item ∈ w.current target, w.spent item = false →
      isMatch kind callback (some item) → item.callback = callback) ∧
    ∀ frame ∈ w.frames, frame.target = target → ∀ item ∈ w.due frame, item.callback ≠ callback
  | .dispatchEvent target (some _) => ∀ item ∈ (w.current target).head?, w.spent item = false
  | .stopImmediatePropagation event =>
    ∀ frame ∈ w.frames, frame.event = event → w.due frame = []
  | .returns | .leavesError =>
    ∀ frame ∈ w.frames.head?, ∀ item ∈ (w.remaining frame).head?, w.spent item = false
  | .throws => ∀ frame ∈ w.frames.head?, w.due frame = []

instance (action : Action) : Decidable (w.Meets kind action) := by
  unfold Meets
  split <;> infer_instance

end World

def Action.meant : Action → Option (Broadcast.Action Nat Nat Nat)
  | .addEventListener target (some callback) once => some (.add target callback once)
  | .removeEventListener target (some callback) => some (.remove target callback)
  | .dispatchEvent target (some event) => some (.dispatch target event)
  | .stopImmediatePropagation event => some (.stop event)
  | .returns | .leavesError | .throws => some .resume
  | _ => none

def meantStep (b : Board Nat Nat Nat) (action : Action) : Option (Board Nat Nat Nat) :=
  action.meant.elim (some b) b.step

end LRJS.EventTargets
