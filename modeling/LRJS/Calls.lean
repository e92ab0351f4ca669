import LRJS.PropertyWrites

/-!
# Calls

`lr_call` and `lr_call_constructor` with their direct variants, which bypass the traps of proxies.
The body of a callee runs outside of this model: a reply says what is called with what, and what
becomes of the value.  Where an accessor is called on the way, the reply is that call.

`alloc` gives the addresses that `calloc` returns.
-/

namespace LRJS

/-- `object_proto` and `array_proto` of the context, or the global object. -/
structure Prototypes where
  object : LRValue
  array : LRValue

def Reply.andThen (result : Heap × Reply) (next : Heap → Option (Heap × Reply)) :
    Option (Heap × Reply) :=
  match result.2 with
  | .call _ _ _ _ => some result
  | _ => next result.1

def lr_call_direct (h : Heap) (func this : LRValue) (args : List LRValue) : Option Reply :=
  match func with
  | .object f => do
      let o ← h.objs f
      match o.type with
      | .cfunction | .function | .bytecodeFunc => some (.call func this args .result)
      | _ => some (.value .undefined)
  | _ => some (.value .exception)

section Traps

variable (protos : Prototypes) (alloc : Nat → Addr) (fuel : Nat)

def argsArray (h : Heap) (args : List LRValue) : Option (Heap × Reply) := do
  let made := lr_new_object h (alloc 0) (.array (some ⟨0, fun _ => .undefined⟩)) protos.array
  let filled ← args.zipIdx.foldlM (fun h (v, i) =>
    (lr_set_property_uint32 fuel h (alloc 0) i v (alloc 1)).map Prod.fst) made
  lr_set_property fuel filled (alloc 0) (h.atom "length") (.int32 (castInt32 args.length)) (alloc 1)

def lr_call (h : Heap) (func this : LRValue) (args : List LRValue) : Option (Heap × Reply) :=
  match func with
  | .object f => do
      let o ← h.objs f
      match o.type with
      | .proxy none => some (h, .value .exception)
      | .proxy (some pd) =>
        withTrap fuel h pd.handler "apply"
          (fun trap => do
            let array ← argsArray protos alloc fuel h args
            Reply.andThen array fun h =>
              some (h, .call trap pd.handler [pd.target, this, .object (alloc 0)] .result))
          ((lr_call_direct h pd.target this args).map fun reply => (h, reply))
      | .cfunction | .function | .bytecodeFunc => some (h, .call func this args .result)
      | _ => some (h, .value .undefined)
  | _ => some (h, .value .exception)

end Traps

def lr_call_constructor_direct (h : Heap) (func : LRValue) (args : List LRValue) :
    Option Reply :=
  match func with
  | .object f => do
      let o ← h.objs f
      match o.type with
      | .cfunction => some (.call func func args .result)
      | _ => some (.value .undefined)
  | _ => some (.value .exception)

section Construction

variable (protos : Prototypes) (alloc : Nat → Addr) (fuel : Nat)

def constructNative (h : Heap) (f : Addr) (args : List LRValue) : Option (Heap × Reply) := do
  let made := lr_new_object h (alloc 0) .plain protos.object
  let (h, fetched) ← lr_get_property fuel made f (h.atom "prototype")
  match fetched with
  | .value proto =>
    let (h, _) ← if proto.isObject then lr_set_prototype h (alloc 0) proto else some (h, .status 0)
    some (h, .call (.object f) (.object (alloc 0)) args (.construct (alloc 0)))
  | .call getter this getterArgs _ => some (h, .call getter this getterArgs .prototype)
  | _ => none

/-- The scripted function is called with a new object of its prototype, which is
created when there is none. -/
def constructScripted (h : Heap) (f : Addr) (args : List LRValue) : Option (Heap × Reply) := do
  let finish (h : Heap) (proto : LRValue) : Option (Heap × Reply) :=
    some (lr_new_object h (alloc 3) .plain proto,
      .call (.object f) (.object (alloc 3)) args (.construct (alloc 3)))
  let (h, fetched) ← lr_get_property fuel h f (h.atom "prototype")
  match fetched with
  | .value proto =>
    if proto.isObject then
      finish h proto
    else do
      let made := lr_new_object h (alloc 0) .plain protos.object
      let linked ← lr_set_property fuel made (alloc 0) (h.atom "constructor") (.object f) (alloc 1)
      Reply.andThen linked fun h => do
        let stored ← lr_set_property fuel h f (h.atom "prototype") (.object (alloc 0)) (alloc 2)
        Reply.andThen stored fun h => finish h (.object (alloc 0))
  | .call getter this getterArgs _ => some (h, .call getter this getterArgs .prototype)
  | _ => none

def lr_call_constructor (h : Heap) (func : LRValue) (args : List LRValue) :
    Option (Heap × Reply) :=
  match func with
  | .object f => do
      let o ← h.objs f
      match o.type with
      | .proxy none => some (h, .value .exception)
      | .proxy (some pd) =>
        withTrap fuel h pd.handler "construct"
          (fun trap => do
            let array ← argsArray protos alloc fuel h args
            Reply.andThen array fun h =>
              some (h, .call trap pd.handler [pd.target, .object (alloc 0), func] .result))
          ((lr_call_constructor_direct h pd.target args).map fun reply => (h, reply))
      | .cfunction => constructNative protos alloc fuel h f args
      | .function | .bytecodeFunc => constructScripted protos alloc fuel h f args
      | _ => some (h, .value .undefined)
  | _ => some (h, .value .exception)

end Construction

end LRJS
