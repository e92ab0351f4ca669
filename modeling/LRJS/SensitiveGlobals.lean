import LRJS.GlobalSnapshots

/-!
# Sensitive globals

Two runs of the writer on states that differ in the values of sensitive globals
only.  The entries are the same as long as the test of the writer, which sees
the first 511 bytes of a C string, finds what makes a name sensitive.
-/

namespace LRJS.Snapshots

open List Option

def Sensitive (name : Name) : Prop :=
  ∃ needle ∈ needles, needle <:+: name.map lower

structure DifferInSensitive (g g' : Globals) : Prop where
  names : g'.names = g.names
  values : ∀ name, g'.lr_get_property name = g.lr_get_property name ∨
    name ∈ g.names ∧ Sensitive name ∧ (g.lr_get_property name).isSome = true ∧
      (g'.lr_get_property name).isSome = true

/-- The names under which the value of a global is written: in the entry `globals`, and in the
entry `nodes` if a node binds it. -/
def WrittenUnder (c : LR_Iome586Cache) (program : List (Option ASTNode)) (name written : Name) :
    Prop :=
  in_engine_namespace c (c_string name) = false ∧ written = c_string name ∨
    written = name ∧ name ≠ [] ∧
      ∃ node ∈ program, (lr_engine_program_node_info node).2.2.map c_string = some name

def Caught (c : LR_Iome586Cache) (program : List (Option ASTNode)) (g : Globals) : Prop :=
  ∀ name ∈ g.names, Sensitive name → (g.lr_get_property name).isSome = true →
    ∀ written, WrittenUnder c program name written → is_sensitive_global written = true

/-- The bytes of one name in the entry `globals`, or none. -/
def global_bytes (g : Globals) (c : LR_Iome586Cache) (allow_strings : Bool) (name : Name) :
    List UInt8 :=
  ((g.record c name).map (binding_bytes allow_strings)).getD []

/-- The snapshot is the count and then the records, in order of names. -/
theorem snapshot_globals_eq (g : Globals) (c : LR_Iome586Cache) (allow_strings : Bool) :
    snapshot_globals g c allow_strings =
      put_u32 (g.names.countP fun name => (g.record c name).isSome) ++
        g.names.flatMap (global_bytes g c allow_strings) := by
  have counted : (g.recorded c).length = g.names.countP fun name => (g.record c name).isSome := by
    rw [Globals.recorded, length_filterMap_eq_countP]
  have written : ∀ names : List Name,
      (names.filterMap (g.record c)).flatMap (binding_bytes allow_strings) =
        names.flatMap (global_bytes g c allow_strings) := by
    intro names
    induction names with
    | nil => rfl
    | cons name names ih =>
      rw [filterMap_cons, flatMap_cons, ← ih, global_bytes]
      split
      · rename_i skipped
        rw [skipped]
        rfl
      · rename_i binding kept
        rw [kept, flatMap_cons]
        rfl
  rw [snapshot_globals, counted, Globals.recorded, written]

variable {allow_strings : Bool} {name : Name}

theorem recorded_value_of_sensitive {v : LRValue}
    (sensitive : is_sensitive_global name = true) : recorded_value allow_strings name v = [6] := by
  rw [recorded_value, opaque_value, sensitive, Bool.true_or, if_pos rfl]

variable {c : LR_Iome586Cache} {program : List (Option ASTNode)} {g g' : Globals}

theorem record_isSome (differ : DifferInSensitive g g') (name : Name) :
    (g'.record c name).isSome = (g.record c name).isSome := by
  unfold Globals.record
  split
  · rfl
  · rw [isSome_map, isSome_map]
    cases differ.values name with
    | inl same => rw [same]
    | inr other => rw [other.2.2.1, other.2.2.2]

/-- The record of a global does not depend on sensitive values. -/
theorem global_bytes_eq (caught : Caught c program g) (differ : DifferInSensitive g g')
    (allow_strings : Bool) (name : Name) :
    global_bytes g' c allow_strings name = global_bytes g c allow_strings name := by
  unfold global_bytes Globals.record
  split_ifs with outside
  · rfl
  · cases differ.values name with
    | inl same => rw [same]
    | inr other =>
      obtain ⟨member, sensitive, value, value'⟩ := other
      obtain ⟨v, reads⟩ := isSome_iff_exists.mp value
      obtain ⟨v', reads'⟩ := isSome_iff_exists.mp value'
      have seen := caught name member sensitive value (c_string name)
        (.inl ⟨Bool.eq_false_iff.mpr outside, rfl⟩)
      rw [reads, reads', map_some, map_some, map_some, map_some,
        getD_some, getD_some, binding_bytes, binding_bytes,
        recorded_value_of_sensitive seen, recorded_value_of_sensitive seen]

/-- The record of a node does not depend on sensitive values. -/
theorem node_bytes_eq (caught : Caught c program g) (differ : DifferInSensitive g g')
    (allow_strings : Bool) {node : Option ASTNode} (member : node ∈ program) :
    node_bytes g' allow_strings node = node_bytes g allow_strings node := by
  have same_value (name : Name) (named : name ≠ [])
      (binds : (lr_engine_program_node_info node).2.2.map c_string = some name) :
      node_value g' allow_strings name = node_value g allow_strings name := by
    unfold node_value
    cases differ.values name with
    | inl same => rw [same]
    | inr other =>
      obtain ⟨global, sensitive, value, value'⟩ := other
      obtain ⟨v, reads⟩ := isSome_iff_exists.mp value
      obtain ⟨v', reads'⟩ := isSome_iff_exists.mp value'
      have seen := caught name global sensitive value name
        (.inr ⟨rfl, named, node, member, binds⟩)
      rw [reads, reads']
      exact (recorded_value_of_sensitive seen).trans (recorded_value_of_sensitive seen).symm
  simp only [node_bytes]
  congr 2
  split
  · rfl
  · rfl
  · rename_i name named binds
    rw [same_value name named binds]

theorem flatMap_pointwise {α β : Type} {f f' : α → List β} {items : List α}
    (lengths : ∀ item, (f item).length = (f' item).length)
    (same : items.flatMap f = items.flatMap f') : ∀ item ∈ items, f item = f' item := by
  induction items with
  | nil => exact nofun
  | cons first items ih =>
    obtain ⟨head, tail⟩ := append_inj same (lengths first)
    exact forall_mem_cons.mpr ⟨head, ih tail⟩

namespace Globals

def assign (g : Globals) (name : Name) (value : BitVec 32) : Globals :=
  { g with lr_get_property := Function.update g.lr_get_property name (some (.int32 value)) }

theorem assign_self (g : Globals) (name : Name) (value : BitVec 32) :
    (g.assign name value).lr_get_property name = some (.int32 value) :=
  Function.update_self ..

theorem assign_other (g : Globals) {name other : Name} (value : BitVec 32)
    (different : other ≠ name) :
    (g.assign name value).lr_get_property other = g.lr_get_property other :=
  Function.update_of_ne different ..

end Globals

theorem differ_assign (member : name ∈ g.names) (sensitive : Sensitive name)
    (value : (g.lr_get_property name).isSome = true) (number : BitVec 32) :
    DifferInSensitive g (g.assign name number) where
  names := rfl
  values := by
    intro other
    by_cases same : other = name
    · rw [same, g.assign_self]
      exact .inr ⟨member, sensitive, value, rfl⟩
    · exact .inl (g.assign_other number same)

theorem recorded_number (allow_strings : Bool) (name : Name) (number : BitVec 32) :
    recorded_value allow_strings name (.int32 number) =
      if is_sensitive_global name = true then [6] else 3 :: put_u32 number.toNat := by
  rw [recorded_value, opaque_value, LRValue.isString, Bool.and_false, Bool.or_false]
  rfl

theorem recorded_number_length (allow_strings : Bool) (name : Name) (number number' : BitVec 32) :
    (recorded_value allow_strings name (.int32 number)).length =
      (recorded_value allow_strings name (.int32 number')).length := by
  rw [recorded_number, recorded_number]
  split
  · rfl
  · rw [length_cons, length_cons, put_u32, put_u32, LittleEndian.length_put,
      LittleEndian.length_put]

theorem global_bytes_length (g : Globals) (allow_strings : Bool) (name other : Name)
    (number number' : BitVec 32) :
    (global_bytes (g.assign name number) c allow_strings other).length =
      (global_bytes (g.assign name number') c allow_strings other).length := by
  unfold global_bytes Globals.record
  split
  · rfl
  · by_cases same : other = name
    · rw [same, g.assign_self, g.assign_self]
      simp only [map_some, getD_some, binding_bytes, length_append]
      rw [recorded_number_length]
    · rw [g.assign_other _ same, g.assign_other _ same]

/-- The length of a node's record does not depend on numbers. -/
theorem node_bytes_length (g : Globals) (allow_strings : Bool) (name : Name)
    (number number' : BitVec 32) (node : Option ASTNode) :
    (node_bytes (g.assign name number) allow_strings node).length =
      (node_bytes (g.assign name number') allow_strings node).length := by
  have lengths (other : Name) : (node_value (g.assign name number) allow_strings other).length =
      (node_value (g.assign name number') allow_strings other).length := by
    unfold node_value
    by_cases same : other = name
    · rw [same, g.assign_self, g.assign_self]
      exact recorded_number_length ..
    · rw [g.assign_other _ same, g.assign_other _ same]
  simp only [node_bytes, length_append, length_cons]
  congr 2
  split
  · rfl
  · rfl
  · rw [length_append, lengths, ← length_append]

theorem caught_in_globals (member : name ∈ g.names)
    (outside : in_engine_namespace c (c_string name) = false)
    (same : snapshot_globals (g.assign name 0) c allow_strings =
      snapshot_globals (g.assign name 1) c allow_strings) :
    is_sensitive_global (c_string name) = true := by
  rw [snapshot_globals_eq, snapshot_globals_eq] at same
  have bodies := (append_inj same (by
    rw [put_u32, put_u32, LittleEndian.length_put, LittleEndian.length_put])).2
  have here := flatMap_pointwise (fun other => global_bytes_length g allow_strings name other 0 1)
    bodies name member
  by_contra missed
  simp only [global_bytes, Globals.record, outside, Bool.false_eq_true, if_false, g.assign_self,
    map_some, getD_some, binding_bytes, recorded_number, missed] at here
  have values := append_cancel_left here
  exact absurd values (by decide)

theorem caught_in_nodes {node : Option ASTNode} (member : node ∈ program) (named : name ≠ [])
    (binds : (lr_engine_program_node_info node).2.2.map c_string = some name)
    (same : snapshot_nodes (g.assign name 0) program allow_strings =
      snapshot_nodes (g.assign name 1) program allow_strings) :
    is_sensitive_global name = true := by
  have bodies := append_cancel_left same
  have here := flatMap_pointwise (fun node => node_bytes_length g allow_strings name 0 1 node)
    bodies node member
  by_contra missed
  simp only [node_bytes, binds] at here
  have behind := append_cancel_left here
  cases name with
  | nil => exact named rfl
  | cons first later =>
    simp only [cons.injEq, true_and, append_cancel_left_eq, node_value, g.assign_self,
      recorded_number, missed, if_false] at behind
    exact absurd behind (by decide)

/-- No value of a sensitive global goes into the archive exactly if the writer catches the names of
all of them. -/
theorem entries_hide_iff (c : LR_Iome586Cache) (program : List (Option ASTNode)) (g : Globals) :
    (∀ g', DifferInSensitive g g' → entries c program g' = entries c program g) ↔
      Caught c program g := by
  constructor
  · intro hides name member sensitive value written under
    have zero := hides _ (differ_assign member sensitive value 0)
    have one := hides _ (differ_assign member sensitive value 1)
    have same : entries c program (g.assign name 0) = entries c program (g.assign name 1) :=
      zero.trans one.symm
    rcases under with ⟨outside, rfl⟩ | ⟨rfl, named, node, inside, binds⟩
    · exact caught_in_globals member outside (congrArg Prod.snd same)
    · exact caught_in_nodes inside named binds (congrArg Prod.fst same)
  · intro caught g' differ
    have nodes : snapshot_nodes g' program c.snapshot_strings =
        snapshot_nodes g program c.snapshot_strings := by
      rw [snapshot_nodes, snapshot_nodes, flatMap_congr fun node member =>
        node_bytes_eq caught differ c.snapshot_strings member]
    have globals : snapshot_globals g' c c.snapshot_strings =
        snapshot_globals g c c.snapshot_strings := by
      rw [snapshot_globals_eq, snapshot_globals_eq, differ.names,
        countP_congr fun name _ => by rw [record_isSome differ],
        flatMap_congr fun name _ => global_bytes_eq caught differ c.snapshot_strings name]
    rw [entries, entries, nodes, globals]

/-- The needle stands behind the first 511 bytes of the name. -/
theorem long_name_leaks :
    ∃ g g' : Globals, DifferInSensitive g g' ∧
      entries ⟨[], true⟩ [] g' ≠ entries ⟨[], true⟩ [] g := by
  let name : Name := replicate 511 120 ++ ascii "token"
  let g : Globals := ⟨[name], fun _ => some (.int32 0)⟩
  have sensitive : Sensitive name := by
    refine ⟨ascii "token", by decide, ?_⟩
    rw [map_append]
    exact suffix_append _ _ |>.isInfix
  refine ⟨g, g.assign name 1, differ_assign mem_cons_self sensitive rfl 1, ?_⟩
  decide +kernel

end LRJS.Snapshots
