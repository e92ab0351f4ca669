import LRJS.GlobalSnapshots

/-!
# The round trip of globals

What `lr_iome586_restore_globals` binds of the bytes of `snapshot_globals`.
Names and strings come back from C strings and from a buffer of 511 bytes.
-/

namespace LRJS.Snapshots

open List Option LittleEndian

def LRValue.Primitive : LRValue → Prop
  | .other _ => False
  | .undefined | .null | .bool _ | .int32 _ | .float64 _ | .string _ => True

def LRValue.Storable : LRValue → Prop
  | .string chars => (∀ ch ∈ chars, ch ≠ 0) ∧ chars.length < 2 ^ 32
  | .undefined | .null | .bool _ | .int32 _ | .float64 _ | .other _ => True

def Short (name : Name) : Prop :=
  (∀ ch ∈ name, ch ≠ 0) ∧ name.length ≤ 511

def FromC (global_obj : Properties) : Prop :=
  ∀ name v, global_obj name = some v → Short name ∧ v.Storable

structure FreshContext where
  global_obj : Properties
  fromC : FromC global_obj

structure Environment extends Globals where
  distinct : names.Nodup
  counted : names.length < 2 ^ 32

def Restorable (c : LR_Iome586Cache) (binding : Name × LRValue) : Prop :=
  binding.2.Primitive ∧ opaque_value c.snapshot_strings (c_string binding.1) binding.2 = false

instance (v : LRValue) : Decidable v.Primitive := by
  cases v <;> unfold LRValue.Primitive <;> infer_instance

instance (c : LR_Iome586Cache) (binding : Name × LRValue) : Decidable (Restorable c binding) :=
  inferInstanceAs (Decidable (_ ∧ _))

def restored (c : LR_Iome586Cache) (g : Environment) (fresh : FreshContext) : Properties :=
  lr_iome586_restore_globals c (snapshot_globals g.toGlobals c c.snapshot_strings) fresh.global_obj

/-- Every recorded primitive comes back, nothing else changes, and no name that the fresh context
has is overwritten. -/
structure RoundTrips (c : LR_Iome586Cache) (g : Environment) (fresh : FreshContext) : Prop where
  values : ∀ binding ∈ g.recorded c, Restorable c binding →
    restored c g fresh binding.1 = some binding.2
  others : ∀ name, (∀ binding ∈ g.recorded c, Restorable c binding → binding.1 ≠ name) →
    restored c g fresh name = fresh.global_obj name
  engine : ∀ name, fresh.global_obj name ≠ none →
    restored c g fresh name = fresh.global_obj name

structure Survives (fresh : FreshContext) (binding : Name × LRValue) : Prop where
  short : Short binding.1
  storable : binding.2.Storable
  free : ∀ v, fresh.global_obj binding.1 = some v → v = binding.2

/-- A value that is read back can be stored. -/
theorem read_value_storable (tag : UInt8) (rest : List UInt8) {v : LRValue}
    (reads : (read_value tag rest).1 = some v) : v.Storable := by
  unfold read_value at reads
  split_ifs at reads
  · cases reads
    trivial
  · cases reads
    trivial
  · cases rest with
    | nil => cases reads
    | cons byte rest =>
      cases reads
      trivial
  · cases reads
    trivial
  · cases reads
    trivial
  · simp only at reads
    split at reads
    · cases reads
    · cases reads
      refine ⟨c_string_storable _, ?_⟩
      have slen := LittleEndian.get_lt (rest.take 4)
      have width : (rest.take 4).length ≤ 4 := length_take_le ..
      have bound : 256 ^ (rest.take 4).length ≤ 256 ^ 4 := Nat.pow_le_pow_right (by decide) width
      have cut : (c_string ((rest.drop 4).take (LittleEndian.get (rest.take 4)))).length ≤
          LittleEndian.get (rest.take 4) :=
        (takeWhile_sublist _).length_le.trans (length_take_le ..)
      omega

variable {c : LR_Iome586Cache}

theorem restore_fromC {name : Name} {v : Option LRValue} {global_obj : Properties}
    (fromC : FromC global_obj) (short : Short name) (storable : ∀ w, v = some w → w.Storable) :
    FromC (restore c name v global_obj) := by
  unfold restore
  split
  · exact fromC
  · rename_i w
    split
    · exact fromC
    · intro other found here
      by_cases same : other = name
      · rw [same, Function.update_self] at here
        cases here
        exact ⟨same ▸ short, storable w rfl⟩
      · rw [Function.update_of_ne same] at here
        exact fromC other found here

/-- Restored bindings have names and strings that are C strings. -/
theorem restore_bindings_fromC (c : LR_Iome586Cache) (count : Nat) (rest : List UInt8)
    {global_obj : Properties} (fromC : FromC global_obj) :
    FromC (restore_bindings c count rest global_obj) := by
  induction count generalizing rest global_obj with
  | zero => exact fromC
  | succ count ih =>
    rw [restore_bindings]
    split
    · exact fromC
    · simp only
      split
      · exact fromC
      · split
        · exact fromC
        · rename_i tag later _
          refine ih _ (restore_fromC fromC ⟨c_string_storable _, ?_⟩ fun w =>
            read_value_storable tag later)
          have cut : (c_string ((rest.drop 2).take
              (min (LittleEndian.get (rest.take 2)) 511))).length ≤
                min (LittleEndian.get (rest.take 2)) 511 :=
            (takeWhile_sublist _).length_le.trans (length_take_le ..)
          omega

theorem restored_fromC (c : LR_Iome586Cache) (g : Environment) (fresh : FreshContext) :
    FromC (restored c g fresh) := by
  unfold restored lr_iome586_restore_globals
  split
  · exact fresh.fromC
  · exact restore_bindings_fromC c _ _ fresh.fromC

variable {binding : Name × LRValue}

theorem RoundTrips.survives {g : Environment} {fresh : FreshContext}
    (trips : RoundTrips c g fresh) (member : binding ∈ g.recorded c)
    (restorable : Restorable c binding) : Survives fresh binding := by
  have back := trips.values binding member restorable
  obtain ⟨short, storable⟩ := restored_fromC c g fresh binding.1 binding.2 back
  refine ⟨short, storable, fun v here => ?_⟩
  have kept := trips.engine binding.1 (by rw [here]; nofun)
  exact some.inj (here.symm.trans (kept.symm.trans back))

def image (c : LR_Iome586Cache) (binding : Name × LRValue) : Option LRValue :=
  if opaque_value c.snapshot_strings (c_string binding.1) binding.2 = true then none
  else match binding.2 with
    | .other _ => none
    | .string chars => some (.string (c_string chars))
    | v => some v

theorem length_u32 (value : Nat) : (put_u32 value).length = 4 :=
  length_put ..

theorem get_u32 {value : Nat} (fits : value < 2 ^ 32) : LittleEndian.get (put_u32 value) = value :=
  get_put_of_lt fits

theorem read_int32 (value : BitVec 32) (rest : List UInt8) :
    read_value 3 (put_u32 value.toNat ++ rest) = (some (.int32 value), rest) := by
  have read (bytes : List UInt8) : read_value 3 bytes = if bytes.length < 4 then (none, bytes)
      else (some (.int32 (.ofNat 32 (get (bytes.take 4)))), bytes.drop 4) :=
    rfl
  have enough : ¬(put_u32 value.toNat ++ rest).length < 4 := by
    rw [length_append, length_u32]
    omega
  rw [read, if_neg enough, take_left' (length_u32 _), drop_left' (length_u32 _),
    get_u32 value.isLt, BitVec.ofNat_toNat, BitVec.setWidth_eq]

theorem read_float64 (bits : BitVec 64) (rest : List UInt8) :
    read_value 4 (LittleEndian.put 8 bits.toNat ++ rest) = (some (.float64 bits), rest) := by
  have read (bytes : List UInt8) : read_value 4 bytes = if bytes.length < 8 then (none, bytes)
      else (some (.float64 (.ofNat 64 (get (bytes.take 8)))), bytes.drop 8) :=
    rfl
  have length : (put 8 bits.toNat).length = 8 := length_put ..
  have enough : ¬(put 8 bits.toNat ++ rest).length < 8 := by
    rw [length_append, length]
    omega
  rw [read, if_neg enough, take_left' length, drop_left' length,
    get_put_of_lt bits.isLt, BitVec.ofNat_toNat, BitVec.setWidth_eq]

theorem read_string {chars : List UInt8} (fits : (c_string chars).length < 2 ^ 32)
    (rest : List UInt8) :
    read_value 5 (put_u32 (c_string chars).length ++ (c_string chars ++ rest)) =
      (some (.string (c_string chars)), rest) := by
  have read (bytes : List UInt8) : read_value 5 bytes = if bytes.length < 4 then (none, bytes)
      else if (bytes.drop 4).length < LittleEndian.get (bytes.take 4) then (none, bytes.drop 4)
      else (some (.string (c_string ((bytes.drop 4).take (LittleEndian.get (bytes.take 4))))),
        (bytes.drop 4).drop (LittleEndian.get (bytes.take 4))) :=
    rfl
  have enough : ¬(put_u32 (c_string chars).length ++ (c_string chars ++ rest)).length < 4 := by
    rw [length_append, length_u32]
    omega
  have inside : ¬(c_string chars ++ rest).length < (c_string chars).length := by
    rw [length_append]
    omega
  rw [read, if_neg enough, take_left' (length_u32 _), drop_left' (length_u32 _),
    get_u32 fits, if_neg inside, take_left' rfl, drop_left' rfl,
    c_string_eq (c_string_storable chars)]

section

variable {c : LR_Iome586Cache} (fits : Restorable c binding → binding.2.Storable)
include fits

/-- What was recorded of a binding is read back as its image. -/
theorem read_recorded (rest : List UInt8) :
    ∃ tag body, recorded_value c.snapshot_strings (c_string binding.1) binding.2 = tag :: body ∧
      read_value tag (body ++ rest) = (image c binding, rest) := by
  unfold recorded_value image
  split_ifs with shown
  · exact ⟨6, [], rfl, rfl⟩
  · rw [Bool.not_eq_true] at shown
    cases value : binding.2 with
    | undefined => exact ⟨0, [], rfl, rfl⟩
    | null => exact ⟨1, [], rfl, rfl⟩
    | bool b => cases b <;> exact ⟨2, _, rfl, rfl⟩
    | int32 number => exact ⟨3, _, rfl, read_int32 number rest⟩
    | float64 bits => exact ⟨4, _, rfl, read_float64 bits rest⟩
    | other ref => exact ⟨6, [], rfl, rfl⟩
    | string chars =>
      refine ⟨5, put_u32 (c_string chars).length ++ c_string chars, rfl, ?_⟩
      have storable : binding.2.Storable := fits ⟨by rw [value]; trivial, shown⟩
      rw [value] at storable
      refine read_string ?_ rest
      rw [c_string_eq storable.1]
      exact storable.2

/-- The record of a binding is restored, and the reader stands behind it. -/
theorem restore_binding
    (named : (c_string binding.1).length < 2 ^ 16) (count : Nat) (rest : List UInt8)
    (global_obj : Properties) :
    restore_bindings c (count + 1) (binding_bytes c.snapshot_strings binding ++ rest) global_obj =
      restore_bindings c count rest
        (restore c ((c_string binding.1).take 511) (image c binding) global_obj) := by
  obtain ⟨tag, body, recorded, reads⟩ := read_recorded fits rest
  have bytes : binding_bytes c.snapshot_strings binding ++ rest =
      blob_u16 (c_string binding.1).length ++ (c_string binding.1 ++ tag :: (body ++ rest)) := by
    rw [binding_bytes, recorded, append_assoc, append_assoc, cons_append]
  have length : (blob_u16 (c_string binding.1).length).length = 2 := LittleEndian.length_put ..
  have get : LittleEndian.get (blob_u16 (c_string binding.1).length) =
      (c_string binding.1).length :=
    LittleEndian.get_put_of_lt named
  have enough : ¬(blob_u16 (c_string binding.1).length ++
      (c_string binding.1 ++ tag :: (body ++ rest))).length < 3 := by
    rw [length_append, length_append, length_cons, length]
    omega
  have inside : ¬(c_string binding.1 ++ tag :: (body ++ rest)).length <
      (c_string binding.1).length + 1 := by
    rw [length_append, length_cons]
    omega
  have name : c_string ((c_string binding.1 ++ tag :: (body ++ rest)).take
      (min (c_string binding.1).length 511)) = (c_string binding.1).take 511 := by
    rw [take_append_of_le_length (Nat.min_le_left ..), Nat.min_comm, ← take_take,
      take_length]
    exact c_string_eq fun ch member => c_string_storable _ ch (mem_of_mem_take member)
  rw [bytes, restore_bindings, if_neg enough]
  simp only [take_left' length, drop_left' length, get, if_neg inside, name,
    drop_left, reads]

end

def bind (c : LR_Iome586Cache) (global_obj : Properties) (binding : Name × LRValue) :
    Properties :=
  if Restorable c binding then Function.update global_obj binding.1 (some binding.2)
  else global_obj

/-- A binding that survives is bound in the fresh context as it was. -/
theorem restore_image (outside : in_engine_namespace c (c_string binding.1) = false)
    (survives : Restorable c binding → Short binding.1 ∧ binding.2.Storable)
    (global_obj : Properties) :
    restore c ((c_string binding.1).take 511) (image c binding) global_obj =
      bind c global_obj binding := by
  unfold bind
  split_ifs with restorable
  · obtain ⟨short, storable⟩ := survives restorable
    have name : (c_string binding.1).take 511 = binding.1 := by
      rw [c_string_eq short.1]
      exact take_of_length_le short.2
    have same : image c binding = some binding.2 := by
      rw [image, restorable.2, if_neg Bool.false_ne_true]
      have primitive := restorable.1
      revert storable primitive
      cases binding.2 with
      | string chars =>
        intro storable _
        exact congrArg (fun chars => some (LRValue.string chars)) (c_string_eq storable.1)
      | other ref => exact fun _ primitive => primitive.elim
      | undefined | null | bool _ | int32 _ | float64 _ => exact fun _ _ => rfl
    have free : ¬in_engine_namespace c binding.1 = true := by
      rw [c_string_eq short.1] at outside
      rw [outside]
      exact Bool.false_ne_true
    rw [name, same]
    exact if_neg free
  · have nothing : image c binding = none := by
      unfold image
      split_ifs with shown
      · rfl
      · rw [Bool.not_eq_true] at shown
        cases value : binding.2 with
        | other ref => rfl
        | undefined | null | bool _ | int32 _ | float64 _ | string _ =>
          exact absurd ⟨by rw [value]; trivial, shown⟩ restorable
    rw [nothing]
    rfl

variable {bindings : List (Name × LRValue)}

theorem restore_bindings_eq
    (outside : ∀ binding ∈ bindings, in_engine_namespace c (c_string binding.1) = false)
    (named : ∀ binding ∈ bindings, (c_string binding.1).length < 2 ^ 16)
    (survives : ∀ binding ∈ bindings, Restorable c binding → Short binding.1 ∧ binding.2.Storable)
    (global_obj : Properties) :
    restore_bindings c bindings.length
        (bindings.flatMap (binding_bytes c.snapshot_strings)) global_obj =
      bindings.foldl (bind c) global_obj := by
  induction bindings generalizing global_obj with
  | nil => rfl
  | cons binding bindings ih =>
    rw [forall_mem_cons] at outside named survives
    rw [flatMap_cons, length_cons, foldl_cons,
      restore_binding (fun restorable => (survives.1 restorable).2) named.1,
      restore_image outside.1 survives.1]
    exact ih outside.2 named.2 survives.2 _

theorem foldl_bind_other {name : Name}
    (other : ∀ binding ∈ bindings, Restorable c binding → binding.1 ≠ name)
    (global_obj : Properties) : bindings.foldl (bind c) global_obj name = global_obj name := by
  induction bindings generalizing global_obj with
  | nil => rfl
  | cons binding bindings ih =>
    rw [forall_mem_cons] at other
    rw [foldl_cons, ih other.2, bind]
    split_ifs with restorable
    · exact Function.update_of_ne (Ne.symm (other.1 restorable)) ..
    · rfl

theorem foldl_bind_self (distinct : (bindings.map Prod.fst).Nodup) (member : binding ∈ bindings)
    (restorable : Restorable c binding) (global_obj : Properties) :
    bindings.foldl (bind c) global_obj binding.1 = some binding.2 := by
  induction bindings generalizing global_obj with
  | nil => cases member
  | cons first bindings ih =>
    rw [map_cons, nodup_cons] at distinct
    rw [foldl_cons]
    cases mem_cons.mp member with
    | inl same =>
      subst same
      have absent : ∀ other ∈ bindings, Restorable c other → other.1 ≠ binding.1 := by
        intro other inside _ equal
        rw [← equal] at distinct
        exact distinct.1 (mem_map_of_mem inside)
      rw [foldl_bind_other absent, bind, if_pos restorable]
      exact Function.update_self ..
    | inr inside => exact ih distinct.2 inside _

variable {c : LR_Iome586Cache} {g : Environment} {fresh : FreshContext}

theorem recorded_sublist (g : Globals) (c : LR_Iome586Cache) :
    ((g.recorded c).map Prod.fst).Sublist g.names := by
  have all (names : List Name) : ((names.filterMap (g.record c)).map Prod.fst).Sublist names := by
    induction names with
    | nil => exact List.Sublist.refl _
    | cons name names ih =>
      rw [filterMap_cons]
      split
      · exact ih.cons _
      · rename_i binding kept
        unfold Globals.record at kept
        split at kept
        · cases kept
        · obtain ⟨v, _, rfl⟩ := map_eq_some_iff.mp kept
          exact ih.cons_cons _
  exact all g.names

theorem recorded_outside {g : Globals}
    (member : binding ∈ g.recorded c) : in_engine_namespace c (c_string binding.1) = false := by
  obtain ⟨name, _, kept⟩ := mem_filterMap.mp member
  unfold Globals.record at kept
  split at kept
  · cases kept
  · rename_i outside
    obtain ⟨v, _, rfl⟩ := map_eq_some_iff.mp kept
    exact Bool.eq_false_iff.mpr outside

/-- Where names and strings survive, and the names in front of the values that are not restored can
be counted, the round trip is right. -/
theorem roundTrips (named : ∀ binding ∈ g.recorded c, ¬Restorable c binding →
      (c_string binding.1).length < 2 ^ 16)
    (survives : ∀ binding ∈ g.recorded c, Restorable c binding → Survives fresh binding) :
    RoundTrips c g fresh := by
  have counted : (g.recorded c).length < 2 ^ 32 := by
    have few := (recorded_sublist g.toGlobals c).length_le
    rw [length_map] at few
    exact Nat.lt_of_le_of_lt few g.counted
  have distinct : ((g.recorded c).map Prod.fst).Nodup :=
    (recorded_sublist g.toGlobals c).nodup g.distinct
  have fold : restored c g fresh = (g.recorded c).foldl (bind c) fresh.global_obj := by
    have enough : ¬(snapshot_globals g.toGlobals c c.snapshot_strings).length < 4 := by
      rw [snapshot_globals, length_append, length_u32]
      omega
    rw [restored, lr_iome586_restore_globals, if_neg enough, snapshot_globals,
      take_left' (length_u32 _), drop_left' (length_u32 _), get_u32 counted]
    refine restore_bindings_eq (fun binding => recorded_outside) (fun binding member => ?_)
      (fun binding member restorable => ?_) fresh.global_obj
    · by_cases restorable : Restorable c binding
      · have short := (survives binding member restorable).short
        rw [c_string_eq short.1]
        exact Nat.lt_of_le_of_lt short.2 (by decide)
      · exact named binding member restorable
    · have kept := survives binding member restorable
      exact ⟨kept.short, kept.storable⟩
  refine ⟨fun binding member restorable => ?_, fun name other => ?_, fun name there => ?_⟩
  · rw [fold]
    exact foldl_bind_self distinct member restorable _
  · rw [fold]
    exact foldl_bind_other other _
  · by_cases bound : ∃ binding ∈ g.recorded c, Restorable c binding ∧ binding.1 = name
    · obtain ⟨binding, member, restorable, rfl⟩ := bound
      obtain ⟨v, here⟩ := ne_none_iff_exists'.mp there
      rw [fold, foldl_bind_self distinct member restorable, here,
        (survives binding member restorable).free v here]
    · rw [fold]
      exact foldl_bind_other (fun binding member restorable same =>
        bound ⟨binding, member, restorable, same⟩) _

/-- When a snapshot comes back right. -/
theorem globals_round_trip (c : LR_Iome586Cache) (g : Environment) (fresh : FreshContext) :
    (RoundTrips c g fresh →
      ∀ binding ∈ g.recorded c, Restorable c binding → Survives fresh binding) ∧
    ((∀ binding ∈ g.recorded c, ¬Restorable c binding → (c_string binding.1).length < 2 ^ 16) →
      (∀ binding ∈ g.recorded c, Restorable c binding → Survives fresh binding) →
        RoundTrips c g fresh) :=
  ⟨fun trips _ member restorable => trips.survives member restorable, roundTrips⟩

/-- A string comes back without what stands behind its first NUL. -/
theorem string_cut :
    ∃ (g : Environment) (fresh : FreshContext), ¬RoundTrips ⟨[], true⟩ g fresh := by
  let g : Environment :=
    { names := [ascii "s"]
      lr_get_property := fun _ => some (.string [97, 0, 98])
      distinct := by decide
      counted := by decide }
  refine ⟨g, ⟨fun _ => none, nofun⟩, fun trips => ?_⟩
  have back := trips.values (ascii "s", .string [97, 0, 98]) (by decide) ⟨trivial, by decide⟩
  exact absurd back (by decide)

end LRJS.Snapshots
