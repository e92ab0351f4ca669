import LRJS.Archive
import LRJS.Library.BinarySearch
import Mathlib.Data.List.Infix

/-!
# Snapshots of globals

The entries `nodes` and `globals` of an archive (`lr_iome586.c`): what is
written of the global bindings after a run, and how they are bound again.
-/

namespace LRJS.Snapshots

open List Option

abbrev Name := List UInt8

/-- A value.  A double is its bit pattern; objects, functions and the like are `other`. -/
inductive LRValue where
  | undefined
  | null
  | bool (bool_val : Bool)
  | int32 (value : BitVec 32)
  | float64 (bits : BitVec 64)
  | string (chars : List UInt8)
  | other (ref : Nat)
  deriving DecidableEq

def LRValue.isString : LRValue → Bool
  | .string _ => true
  | .undefined | .null | .bool _ | .int32 _ | .float64 _ | .other _ => false

def ascii (text : String) : List UInt8 :=
  text.toList.map fun letter => UInt8.ofNat letter.toNat

/-- The fields of `LR_Iome586Cache` that count here; without a baseline `baseline_names` is
empty. -/
structure LR_Iome586Cache where
  baseline_names : List Name
  snapshot_strings : Bool
  deriving DecidableEq

/-- `baseline_name_cmp` and `builtin_global_cmp`: `strcmp`. -/
def baseline_name_cmp (a b : Name) : Ordering :=
  compare a b

/-- `lr_iome586_capture_baseline`, with the names of the properties of the global object. -/
def lr_iome586_capture_baseline (c : LR_Iome586Cache) (names : List Name) : LR_Iome586Cache :=
  { c with
    baseline_names := (names.map c_string).mergeSort fun a b => (baseline_name_cmp a b).isLE }

def builtin_globals_sorted : List Name :=
  ["AbortController", "AbortSignal", "AggregateError", "Array", "ArrayBuffer", "BigInt",
    "BigInt64Array", "BigUint64Array", "Boolean", "CustomEvent", "DataView", "Date", "Error",
    "EvalError", "Event", "EventTarget", "FinalizationRegistry", "Float32Array", "Float64Array",
    "Function", "Infinity", "Int16Array", "Int32Array", "Int8Array", "Intl", "JSON", "Map", "Math",
    "NaN", "Number", "Object", "Promise", "Proxy", "RangeError", "Reflect", "RegExp",
    "ReferenceError", "Set", "SharedArrayBuffer", "String", "Symbol", "SyntaxError", "TypeError",
    "URIError", "Uint16Array", "Uint32Array", "Uint8Array", "Uint8ClampedArray", "URL",
    "URLSearchParams", "WeakMap", "WeakRef", "WeakSet", "WebSocket", "Worker", "atob", "btoa",
    "clearInterval", "clearTimeout", "console", "crypto", "decodeURI", "decodeURIComponent",
    "encodeURI", "encodeURIComponent", "escape", "eval", "fetch", "fs", "globalThis", "isFinite",
    "isNaN", "localStorage", "navigator", "os", "parseFloat", "parseInt", "performance",
    "queueMicrotask", "sessionStorage", "setInterval", "setTimeout", "structuredClone", "terminal",
    "TextDecoder", "TextEncoder", "undefined", "unescape"].map ascii

def is_builtin_global (name : Name) : Bool :=
  (BinarySearch.search (baseline_name_cmp name) builtin_globals_sorted).isSome

/-- `in_engine_namespace`, with a C string. -/
def in_engine_namespace (c : LR_Iome586Cache) (name : Name) : Bool :=
  if c.baseline_names ≠ [] then
    (BinarySearch.search (baseline_name_cmp name) c.baseline_names).isSome
  else
    is_builtin_global name

/-- The search in the sorted baseline finds exactly the captured names. -/
theorem in_engine_namespace_iff {c : LR_Iome586Cache} {names : List Name} (some_name : names ≠ [])
    {name : Name} :
    in_engine_namespace (lr_iome586_capture_baseline c names) name = true ↔
      ∃ other ∈ names, c_string other = name := by
  have ascending : (lr_iome586_capture_baseline c names).baseline_names.Pairwise
      fun first second => (compare first second).isLE = true := by
    refine pairwise_mergeSort (fun _ _ _ => Std.TransCmp.isLE_trans) (fun first second => ?_) _
    rw [Std.OrientedOrd.eq_swap (a := first) (b := second)]
    cases compare second first <;> rfl
  have nonempty : (lr_iome586_capture_baseline c names).baseline_names ≠ [] := by
    intro empty
    have length := congrArg length empty
    rw [lr_iome586_capture_baseline, length_mergeSort, length_map] at length
    exact some_name (length_eq_zero_iff.mp length)
  rw [in_engine_namespace, if_pos nonempty]
  refine (BinarySearch.search_isSome_iff (BinarySearch.sorted_of_pairwise name ascending)).trans ?_
  constructor
  · intro there
    obtain ⟨item, sorted, equal⟩ := there
    obtain ⟨other, member, same⟩ := mem_map.mp (mem_mergeSort.mp sorted)
    exact ⟨other, member, same.trans (Std.LawfulEqCmp.eq_of_compare equal).symm⟩
  · intro there
    obtain ⟨other, member, rfl⟩ := there
    exact ⟨c_string other, mem_mergeSort.mpr (mem_map_of_mem member),
      Std.ReflCmp.compare_self⟩

/-- A captured name is found. -/
theorem in_engine_namespace_captured :
    in_engine_namespace (lr_iome586_capture_baseline ⟨[], true⟩ [[98], [97]]) [97] = true :=
  (in_engine_namespace_iff (cons_ne_nil _ _)).mpr ⟨[97], by decide, rfl⟩

def needles : List Name :=
  ["token", "secret", "passw", "credential", "apikey", "api_key", "auth", "bearer", "cookie",
    "session", "private"].map ascii

def lower (ch : UInt8) : UInt8 :=
  if 65 ≤ ch ∧ ch ≤ 90 then ch + 32 else ch

/-- `is_sensitive_global`, with a C string; `low` has 512 bytes, one of them for the NUL. -/
def is_sensitive_global (name : Name) : Bool :=
  let low := (name.take 511).map lower
  needles.any fun needle => decide (needle <:+: low)

def blob_value : LRValue → List UInt8
  | .undefined => [0]
  | .null => [1]
  | .bool bool_val => [2, if bool_val = true then 1 else 0]
  | .int32 value => 3 :: put_u32 value.toNat
  | .float64 bits => 4 :: LittleEndian.put 8 bits.toNat
  | .string chars => 5 :: put_u32 (c_string chars).length ++ c_string chars
  | .other _ => [6]

def blob_u16 (value : Nat) : List UInt8 :=
  LittleEndian.put 2 value

def opaque_value (allow_strings : Bool) (name : Name) (v : LRValue) : Bool :=
  is_sensitive_global name || !allow_strings && v.isString

def recorded_value (allow_strings : Bool) (name : Name) (v : LRValue) : List UInt8 :=
  if opaque_value allow_strings name v = true then [6] else blob_value v

/-- The global object: the names of its own properties in order, and what reading a property
gives, or `none` if that throws. -/
structure Globals where
  names : List Name
  lr_get_property : Name → Option LRValue

namespace Globals

variable (g : Globals) (c : LR_Iome586Cache)

def record (name : Name) : Option (Name × LRValue) :=
  if in_engine_namespace c (c_string name) = true then none
  else (g.lr_get_property name).map fun v => (name, v)

def recorded : List (Name × LRValue) :=
  g.names.filterMap (g.record c)

end Globals

/-- One binding of the entry `globals`. -/
def binding_bytes (allow_strings : Bool) (binding : Name × LRValue) : List UInt8 :=
  blob_u16 (c_string binding.1).length ++ c_string binding.1 ++
    recorded_value allow_strings (c_string binding.1) binding.2

def snapshot_globals (g : Globals) (c : LR_Iome586Cache) (allow_strings : Bool) : List UInt8 :=
  let recorded := g.recorded c
  put_u32 recorded.length ++ recorded.flatMap (binding_bytes allow_strings)

/-- What `lr_engine_program_node_info` looks at in a node of the program. -/
inductive Declaration where
  | func (name : Option Name)
  | class_decl (name : Option Name)
  /-- The names of the variables; the one of a pattern is `none`. -/
  | var_decl (vars : List (Option Name))
  | other
  deriving DecidableEq

structure ASTNode where
  type : Nat
  line : Nat
  declaration : Declaration
  deriving DecidableEq

/-- `lr_engine_program_node_info`; an item may be missing. -/
def lr_engine_program_node_info : Option ASTNode → Nat × Nat × Option Name
  | none => (0xFFFF, 0, none)
  | some node =>
    (node.type, node.line,
      match node.declaration with
      | .func name | .class_decl name => name
      | .var_decl (first :: _) => first
      | .var_decl [] | .other => none)

def node_value (g : Globals) (allow_strings : Bool) (name : Name) : List UInt8 :=
  match g.lr_get_property name with
  | none => [6]
  | some v => recorded_value allow_strings name v

/-- One node of the entry `nodes`. -/
def node_bytes (g : Globals) (allow_strings : Bool) (node : Option ASTNode) : List UInt8 :=
  let (type, line, name) := lr_engine_program_node_info node
  blob_u16 type ++ put_u32 line ++ 1 ::
    match name.map c_string with
    | none | some [] => [0]
    | some name => 1 :: blob_u16 name.length ++ name ++ node_value g allow_strings name

def snapshot_nodes (g : Globals) (program : List (Option ASTNode)) (allow_strings : Bool) :
    List UInt8 :=
  put_u32 program.length ++ program.flatMap (node_bytes g allow_strings)

/-- The entries `nodes` and `globals` that `lr_iome586_commit` writes. -/
def entries (c : LR_Iome586Cache) (program : List (Option ASTNode)) (g : Globals) :
    List UInt8 × List UInt8 :=
  (snapshot_nodes g program c.snapshot_strings, snapshot_globals g c c.snapshot_strings)

/-- A value after its tag, or `none` if it is not restorable, and the bytes behind it. -/
def read_value (tag : UInt8) (rest : List UInt8) : Option LRValue × List UInt8 :=
  if tag = 0 then (some .undefined, rest)
  else if tag = 1 then (some .null, rest)
  else if tag = 2 then
    match rest with
    | [] => (none, rest)
    | byte :: rest => (some (.bool (decide (byte ≠ 0))), rest)
  else if tag = 3 then
    if rest.length < 4 then (none, rest)
    else (some (.int32 (.ofNat 32 (LittleEndian.get (rest.take 4)))), rest.drop 4)
  else if tag = 4 then
    if rest.length < 8 then (none, rest)
    else (some (.float64 (.ofNat 64 (LittleEndian.get (rest.take 8)))), rest.drop 8)
  else if tag = 5 then
    if rest.length < 4 then (none, rest)
    else
      let slen := LittleEndian.get (rest.take 4)
      let rest := rest.drop 4
      if rest.length < slen then (none, rest)
      else (some (.string (c_string (rest.take slen))), rest.drop slen)
  else (none, rest)

abbrev Properties := Name → Option LRValue

/-- The end of a turn: `lr_set_property_str`, unless the name is in the namespace of the engine. -/
def restore (c : LR_Iome586Cache) (name : Name) (v : Option LRValue) (global_obj : Properties) :
    Properties :=
  match v with
  | none => global_obj
  | some v =>
    if in_engine_namespace c name = true then global_obj
    else Function.update global_obj name (some v)

/-- The loop of `lr_iome586_restore_globals`, `count` turns from its end. -/
def restore_bindings (c : LR_Iome586Cache) :
    Nat → List UInt8 → Properties → Properties
  | 0, _, global_obj => global_obj
  | count + 1, rest, global_obj =>
    if rest.length < 3 then global_obj
    else
      let nlen := LittleEndian.get (rest.take 2)
      let rest := rest.drop 2
      if rest.length < nlen + 1 then global_obj
      else
        -- the buffer of the name holds 511 bytes and a NUL
        let name := c_string (rest.take (min nlen 511))
        match rest.drop nlen with
        | [] => global_obj
        | tag :: rest =>
          let (v, rest) := read_value tag rest
          restore_bindings c count rest (restore c name v global_obj)

/-- `lr_iome586_restore_globals`, without the count that it returns. -/
def lr_iome586_restore_globals (c : LR_Iome586Cache) (globals : List UInt8)
    (global_obj : Properties) : Properties :=
  if globals.length < 4 then global_obj
  else
    restore_bindings c (LittleEndian.get (globals.take 4)) (globals.drop 4) global_obj

end LRJS.Snapshots
