import LRJS.Opcodes
import LRJS.Library.Runs

/-!
# Archived programs in the machine

The dispatch loop of `bc_execute` on an archived program, with positions only: the world decides
which way a conditional jump goes, whether a handler aborts and how many slots the scope has.  A run
is bad from the first access on that is outside the code, the dispatch table, the pool, the operand
stack or the slots, or that takes a constant for one of another kind.
-/

namespace LRJS

open Micro

/-- What a handler has done: an access went wrong, the handler aborted, or it
has left a stack of that depth and capacity. -/
inductive Ran where
  | bad
  | aborted
  | done (sp cap : Nat)
deriving DecidableEq

namespace Micro

/-- `VM_GROW`. -/
def grow (sp cap : Nat) : Nat :=
  if sp ≥ cap then cap * 2 else cap

def fits (consts : List PoolConst) (index : Nat) : Micro → Bool
  | .float => consts[index]?.isSome
  | .name | .slotName => match consts[index]? with
    | some (.string _) => true
    | _ => false
  | .node => match consts[index]? with
    | some (.node _) => true
    | _ => false
  | _ => true

def exec (consts : List PoolConst) (values : Operands) (slots sp cap : Nat) : Micro → Ran
  | .need n => if sp < n then .aborted else .done sp cap
  | .pop => if sp = 0 then .done 0 cap else if sp - 1 < cap then .done (sp - 1) cap else .bad
  | .push => if sp < grow sp cap then .done (sp + 1) (grow sp cap) else .bad
  | .peek d => if d ≤ sp ∧ sp - d < cap then .done sp cap else .bad
  | .top => if sp = 0 ∨ sp - 1 < cap then .done sp cap else .bad
  | .merge => if sp < 2 then .done sp cap else if sp - 1 < cap then .done (sp - 1) cap else .bad
  | .slot => if values.slot < slots % 2 ^ 16 → values.slot < slots then .done sp cap else .bad
  | .slotName =>
    if values.slot < slots % 2 ^ 16 then
      if values.slot < slots ∧ fits consts values.const .slotName then .done sp cap else .bad
    else .done sp cap
  | .float => if fits consts values.const .float then .done sp cap else .bad
  | .name => if fits consts values.const .name then .done sp cap else .bad
  | .node => if fits consts values.const .node then .done sp cap else .bad

def execAll (consts : List PoolConst) (values : Operands) (slots : Nat) :
    List Micro → Nat → Nat → Ran
  | [], sp, cap => .done sp cap
  | micro :: rest, sp, cap =>
    match micro.exec consts values slots sp cap with
    | .done sp cap => execAll consts values slots rest sp cap
    | ended => ended

end Micro

structure VMState where
  ip : Int
  sp : Nat
  cap : Nat

structure Chance where
  jumps : Bool
  aborts : Bool
  slots : Nat

inductive VMRun where
  | running (state : VMState)
  | ended
  | bad

namespace Decoded

def goesTo (d : Decoded) (jumps : Bool) : Int :=
  if d.op = .jump ∨ d.op.branches ∧ jumps then d.next + d.values.offset else d.next

def micro (d : Decoded) (jumps : Bool) : List Micro :=
  d.op.micro d.values.count jumps

end Decoded

namespace BCProgram

variable (p : BCProgram)

/-- The capacity with which `bc_execute` starts. -/
def stack_cap : Nat :=
  max (max 256 p.max_stack.toNat) (p.code.length / 32)

/-- The state in which `bc_execute` starts. -/
def entry : VMState :=
  ⟨0, 0, p.stack_cap⟩

def vm_step (s : VMState) (chance : Chance) : VMRun :=
  match decode p.code s.ip with
  | none => .bad
  | some d =>
    match Micro.execAll p.consts d.values chance.slots (d.micro chance.jumps) s.sp s.cap with
    | .bad => .bad
    | .aborted => .ended
    | .done sp cap =>
      if chance.aborts ∨ d.op.ends then .ended
      else .running ⟨d.goesTo chance.jumps, sp, cap⟩

def vm_run : VMState → List Chance → VMRun
  | s, [] => .running s
  | s, chance :: rest =>
    match p.vm_step s chance with
    | .running next => vm_run next rest
    | finished => finished

def RunsSafely : Prop :=
  ∀ chances, p.vm_run p.entry chances ≠ .bad

end BCProgram

/-- The depth of the operand stack after a handler: `none` when it uses a
constant that does not fit. -/
def Micro.flow (consts : List PoolConst) (values : Operands) (slots : Nat) :
    List Micro → Nat → Option (Option Nat)
  | [], depth => some (some depth)
  | micro :: rest, depth =>
    if micro.fits consts values.const ∨ micro = .slotName ∧ slots % 2 ^ 16 ≤ values.slot then
      match micro with
      | .need n => if depth < n then some none else flow consts values slots rest depth
      | .pop => flow consts values slots rest (depth - 1)
      | .push => flow consts values slots rest (depth + 1)
      | .merge => flow consts values slots rest (if depth < 2 then depth else depth - 1)
      | _ => flow consts values slots rest depth
    else none

inductive Flows (code : List UInt8) (consts : List PoolConst) : Int → Nat → Prop
  | entry : Flows code consts 0 0
  | next {pos : Int} {depth after : Nat} {d : Decoded} (jumps : Bool) (slots : Nat)
      (reached : Flows code consts pos depth) (stands : decode code pos = some d)
      (goes : Micro.flow consts d.values slots (d.micro jumps) depth = some (some after))
      (on : d.op.ends = false) : Flows code consts (d.goesTo jumps) after

/-- Where the flow of the code arrives an instruction stands that is complete
and uses a constant that fits. -/
def CodeChecks (code : List UInt8) (consts : List PoolConst) : Prop :=
  ∀ pos depth, Flows code consts pos depth →
    ∃ d, decode code pos = some d ∧
      ∀ jumps slots, Micro.flow consts d.values slots (d.micro jumps) depth ≠ none

/-- A stack access is guarded when at least `k` cells are known to be there. -/
def Micro.guarded : List Micro → Nat → Bool
  | [], _ => true
  | micro :: rest, k =>
    match micro with
    | .need n => guarded rest (max k n)
    | .pop => guarded rest (k - 1)
    | .push => guarded rest (k + 1)
    | .peek d => 0 < d && d ≤ k && guarded rest k
    | .merge => guarded rest (if k < 2 then k else k - 1)
    | _ => guarded rest k

theorem Micro.guarded_pops (count k : Nat) {rest : List Micro}
    (free : ∀ j, Micro.guarded rest j = true) :
    Micro.guarded (List.replicate count .pop ++ rest) k = true := by
  induction count generalizing k with
  | zero => exact free k
  | succ count ih => exact ih (k - 1)

theorem BCOpcode.micro_guarded (op : BCOpcode) (count : Nat) (jumps : Bool) :
    Micro.guarded (op.micro count jumps) 0 = true := by
  cases op
  case call => exact guarded_pops count _ fun _ => rfl
  case call_method => exact guarded_pops count _ fun _ => rfl
  case call_elem => exact guarded_pops count _ fun _ => rfl
  case new => exact guarded_pops count _ fun _ => rfl
  case new_array => exact guarded_pops count _ fun _ => rfl
  case iter_next => cases jumps <;> rfl
  all_goals rfl

inductive Agrees : Ran → Option (Option Nat) → Prop
  | bad : Agrees .bad none
  | aborted : Agrees .aborted (some none)
  | done {sp cap : Nat} (inside : sp ≤ cap) (room : 0 < cap) :
      Agrees (.done sp cap) (some (some sp))

theorem Micro.grow_room {sp cap : Nat} (inside : sp ≤ cap) (room : 0 < cap) :
    sp < Micro.grow sp cap := by
  unfold grow
  split <;> omega

theorem Micro.use_agrees {consts : List PoolConst} {values : Operands} {slots sp cap : Nat}
    {use : Micro} {rest : List Micro} (other : use ≠ .slotName)
    (later : Agrees (Micro.execAll consts values slots rest sp cap)
      (Micro.flow consts values slots rest sp)) :
    Agrees (match if use.fits consts values.const then Ran.done sp cap else .bad with
        | .done sp cap => Micro.execAll consts values slots rest sp cap
        | ended => ended)
      (if use.fits consts values.const ∨ use = .slotName ∧ slots % 2 ^ 16 ≤ values.slot then
        Micro.flow consts values slots rest sp
      else none) := by
  by_cases fit : use.fits consts values.const = true
  · rw [if_pos fit, if_pos (.inl fit)]
    exact later
  · rw [if_neg fit, if_neg fun either => either.elim fit fun both => other both.1]
    exact .bad

/-- Guarded micro operations stay inside the operand stack and do what `flow` says. -/
theorem Micro.execAll_agrees (consts : List PoolConst) (values : Operands) (slots : Nat)
    (ops : List Micro) : ∀ {k sp cap : Nat}, Micro.guarded ops k = true → k ≤ sp → sp ≤ cap →
      0 < cap → Agrees (Micro.execAll consts values slots ops sp cap)
        (Micro.flow consts values slots ops sp) := by
  induction ops with
  | nil => exact fun _ _ inside room => .done inside room
  | cons micro rest ih =>
    intro k sp cap guarded known inside room
    unfold Micro.execAll Micro.flow
    cases micro with
    | need n =>
      dsimp only [Micro.exec]
      by_cases few : sp < n
      · rw [if_pos few, if_pos few]
        exact .aborted
      · rw [if_neg few, if_neg few]
        exact ih guarded (by omega) inside room
    | pop =>
      dsimp only [Micro.exec]
      by_cases empty : sp = 0
      · subst empty
        exact ih guarded (by omega) inside room
      · rw [if_neg empty, if_pos (by omega)]
        exact ih guarded (by omega) (by omega) room
    | push =>
      dsimp only [Micro.exec]
      have fresh := Micro.grow_room inside room
      have plain : Micro.fits consts values.const .push = true := rfl
      rw [if_pos (Or.inl plain), if_pos fresh]
      exact ih guarded (by omega) fresh (by omega)
    | peek d =>
      simp only [Micro.guarded, Bool.and_eq_true, decide_eq_true_eq] at guarded
      dsimp only [Micro.exec]
      have plain : Micro.fits consts values.const (.peek d) = true := rfl
      rw [if_pos (Or.inl plain), if_pos (by omega)]
      exact ih guarded.2 known inside room
    | top =>
      dsimp only [Micro.exec]
      have plain : Micro.fits consts values.const .top = true := rfl
      rw [if_pos (Or.inl plain), if_pos (by omega)]
      exact ih guarded known inside room
    | merge =>
      dsimp only [Micro.exec]
      by_cases few : sp < 2
      · rw [if_pos few, if_pos few]
        refine ih guarded ?_ inside room
        split <;> omega
      · rw [if_neg few, if_neg few, if_pos (by omega)]
        refine ih guarded ?_ (by omega) room
        split <;> omega
    | slot =>
      dsimp only [Micro.exec]
      have plain : Micro.fits consts values.const .slot = true := rfl
      rw [if_pos (Or.inl plain), if_pos fun low => low.trans_le (Nat.mod_le _ _)]
      exact ih guarded known inside room
    | slotName =>
      dsimp only [Micro.exec]
      by_cases low : values.slot < slots % 2 ^ 16
      · rw [if_pos low]
        by_cases fit : Micro.fits consts values.const .slotName = true
        · rw [if_pos ⟨low.trans_le (Nat.mod_le _ _), fit⟩, if_pos (Or.inl fit)]
          exact ih guarded known inside room
        · rw [if_neg fun both => fit both.2, if_neg (by
            rintro (good | ⟨_, high⟩)
            · exact fit good
            · exact absurd low (Nat.not_lt.mpr high))]
          exact .bad
      · rw [if_neg low, if_pos (Or.inr ⟨rfl, Nat.not_lt.mp low⟩)]
        exact ih guarded known inside room
    | float | name | node => exact Micro.use_agrees nofun (ih guarded known inside room)

namespace BCProgram

variable (p : BCProgram)

def Here (s : VMState) : Prop :=
  Flows p.code p.consts s.ip s.sp ∧ s.sp ≤ s.cap ∧ 0 < s.cap

theorem entry_here : p.Here p.entry :=
  ⟨.entry, Nat.zero_le _, Nat.lt_of_lt_of_le (by decide)
    ((Nat.le_max_left 256 _).trans (Nat.le_max_left _ _))⟩

theorem handler_agrees {s : VMState} (here : p.Here s) (d : Decoded) (jumps : Bool) (slots : Nat) :
    Agrees (Micro.execAll p.consts d.values slots (d.micro jumps) s.sp s.cap)
      (Micro.flow p.consts d.values slots (d.micro jumps) s.sp) :=
  execAll_agrees p.consts d.values slots _ (d.op.micro_guarded d.values.count jumps)
    (Nat.zero_le _) here.2.1 here.2.2

/-- A step from a place that the checks allow is no fault and leads to such a place. -/
theorem vm_step_checked (checks : CodeChecks p.code p.consts) {s : VMState} (here : p.Here s)
    (chance : Chance) :
    p.vm_step s chance ≠ .bad ∧ ∀ next, p.vm_step s chance = .running next → p.Here next := by
  obtain ⟨d, stands, fits⟩ := checks s.ip s.sp here.1
  have agrees := p.handler_agrees here d chance.jumps chance.slots
  have fit := fits chance.jumps chance.slots
  unfold vm_step
  rw [stands]
  dsimp only
  generalize ran : execAll p.consts d.values chance.slots (d.micro chance.jumps) s.sp s.cap =
    ending at agrees
  generalize goes : flow p.consts d.values chance.slots (d.micro chance.jumps) s.sp =
    flow at agrees fit
  cases agrees with
  | bad => exact absurd rfl fit
  | aborted => exact ⟨nofun, nofun⟩
  | @done sp cap inside room =>
    dsimp only
    by_cases finished : chance.aborts = true ∨ d.op.ends = true
    · rw [if_pos finished]
      exact ⟨nofun, nofun⟩
    · rw [if_neg finished]
      refine ⟨nofun, fun next moved => ?_⟩
      cases moved
      have on : d.op.ends = false := Bool.eq_false_iff.mpr fun ends => finished (.inr ends)
      exact ⟨.next chance.jumps chance.slots here.1 stands goes on, inside, room⟩

theorem vm_run_checked (checks : CodeChecks p.code p.consts) (chances : List Chance) :
    ∀ {s : VMState}, p.Here s → p.vm_run s chances ≠ .bad := by
  induction chances with
  | nil => exact fun _ => nofun
  | cons chance rest ih =>
    intro s here
    obtain ⟨good, keeps⟩ := p.vm_step_checked checks here chance
    unfold vm_run
    cases stepped : p.vm_step s chance with
    | running next => exact ih (keeps next stepped)
    | ended => exact nofun
    | bad => exact absurd stepped good

theorem vm_run_append {s reached : VMState} {chances later : List Chance}
    (arrives : p.vm_run s chances = .running reached) :
    p.vm_run s (chances ++ later) = p.vm_run reached later := by
  induction chances generalizing s with
  | nil =>
    cases arrives
    rfl
  | cons chance rest ih =>
    unfold vm_run at arrives
    rw [List.cons_append, vm_run]
    cases stepped : p.vm_step s chance with
    | running next =>
      rw [stepped] at arrives
      exact ih arrives
    | ended | bad =>
      rw [stepped] at arrives
      cases arrives

/-- Every place that the flow of the code reaches is reached by a run. -/
theorem run_of_flow {pos : Int} {depth : Nat} (flows : Flows p.code p.consts pos depth) :
    ∃ chances cap, p.vm_run p.entry chances = .running ⟨pos, depth, cap⟩ ∧
      p.Here ⟨pos, depth, cap⟩ := by
  induction flows with
  | entry => exact ⟨[], p.stack_cap, rfl, p.entry_here⟩
  | @next pos depth after d jumps slots reached stands goes on ih =>
    obtain ⟨chances, cap, arrives, here⟩ := ih
    have agrees := p.handler_agrees here d jumps slots
    rw [goes] at agrees
    generalize ran : execAll p.consts d.values slots (d.micro jumps) depth cap =
      ending at agrees
    cases agrees with
    | @done _ cap inside room =>
      refine ⟨chances ++ [⟨jumps, false, slots⟩], cap, ?_, ?_, inside, room⟩
      · rw [p.vm_run_append arrives, vm_run, vm_step]
        rw [stands]
        dsimp only
        rw [ran]
        dsimp only
        rw [on, if_neg (by decide)]
        rfl
      · exact .next jumps slots here.1 stands goes on

/-- A program runs safely exactly if its code passes the checks. -/
theorem runsSafely_iff : p.RunsSafely ↔ CodeChecks p.code p.consts := by
  constructor
  · intro safe pos depth flows
    obtain ⟨chances, cap, arrives, here⟩ := p.run_of_flow flows
    have unharmed (chance : Chance) : p.vm_step ⟨pos, depth, cap⟩ chance ≠ .bad := by
      intro bad
      apply safe (chances ++ [chance])
      rw [p.vm_run_append arrives, vm_run, bad]
    cases stands : decode p.code pos with
    | none =>
      exact absurd (by rw [vm_step, stands]) (unharmed ⟨false, false, 0⟩)
    | some d =>
      refine ⟨d, rfl, fun jumps slots unfit => unharmed ⟨jumps, false, slots⟩ ?_⟩
      have agrees := p.handler_agrees here d jumps slots
      rw [unfit] at agrees
      generalize ran : execAll p.consts d.values slots (d.micro jumps) depth cap =
        ending at agrees
      cases agrees
      rw [vm_step]
      rw [stands]
      dsimp only
      rw [ran]
  · exact fun checks chances => p.vm_run_checked checks chances p.entry_here

end BCProgram

/-- A program that is returned has allocated what it needs, and runs without a bad access. -/
def Loaded.Safely : Loaded BCProgram → Prop
  | .null => True
  | .fault _ => False
  | .done p => p.code.length ≤ p.code_cap ∧ p.pool.length ≤ p.pool_cap ∧ p.RunsSafely

/-- With an accepted header, the counts leave room for the slack, no string has the longest length,
and if the pool is complete, the code checks. -/
structure FileChecks (file : ArchiveFile) : Prop where
  code_sized : file.code.length + 16 < 2 ^ 31
  pool_sized : file.pool_count + 8 < 2 ^ 31
  strings_sized : ∀ records left, (∀ r ∈ records, r.Fits) → records.length < file.pool_count →
    file.rest = records_bytes records ++ (longest_string ++ left) → left.length < 2 ^ 32
  code_checks : ∀ records left, (∀ r ∈ records, r.Fits) → records.length = file.pool_count →
    file.rest = records_bytes records ++ left →
      CodeChecks file.code (records.map PoolRecord.payload)

theorem consts_restored (code : List UInt8) (code_cap : Int) (pool : List PoolConst)
    (pool_cap : Int) : (restored code code_cap pool pool_cap).consts = pool := by
  rw [BCProgram.consts, restored, List.map_map]
  exact List.map_id pool

theorem restored_safely_iff {code : List UInt8} {pool : List PoolConst} {code_cap pool_cap : Int}
    (code_room : code.length ≤ code_cap) (pool_room : pool.length ≤ pool_cap) :
    (Loaded.done (restored code code_cap pool pool_cap)).Safely ↔ CodeChecks code pool := by
  have runs := (restored code code_cap pool pool_cap).runsSafely_iff
  rw [consts_restored] at runs
  refine Iff.trans ⟨fun safe => safe.2.2, fun safe => ⟨code_room, ?_, safe⟩⟩ runs
  rw [restored, List.length_map]
  exact pool_room

/-- A file is loaded and run safely exactly if it passes the checks. -/
theorem load_safely_iff (file : ArchiveFile) : file.load.Safely ↔ FileChecks file := by
  have code_cap := capacity_eq 16 file.code_small (by decide)
  have pool_cap := capacity_eq 8 file.pool_small (by decide)
  by_cases code_sized : file.code.length + 16 < 2 ^ 31
  swap
  · rw [ArchiveFile.load, code_cap, if_neg code_sized]
    exact iff_of_false id fun checks => code_sized checks.code_sized
  by_cases pool_sized : file.pool_count + 8 < 2 ^ 31
  swap
  · rw [ArchiveFile.load, code_cap, if_pos code_sized, Loaded.done_bind, pool_cap,
      if_neg pool_sized]
    exact iff_of_false id fun checks => pool_sized checks.pool_sized
  rw [ArchiveFile.load, code_cap, if_pos code_sized, Loaded.done_bind, pool_cap,
    if_pos pool_sized, Loaded.done_bind]
  have reads := readsPool file.pool_count file.rest
  -- the pool decides which of the two remaining conditions speaks about the file
  have early {records : List PoolRecord} {left : List UInt8} (fits : ∀ r ∈ records, r.Fits)
      (few : records.length < file.pool_count)
      (split : file.rest = records_bytes records ++ (longest_string ++ left))
      (long : 2 ^ 32 ≤ left.length) : read_pool file.pool_count file.rest = .fault .overwrite := by
    rw [split]
    exact read_pool_longest fits few long
  have complete {records : List PoolRecord} {left : List UInt8} (fits : ∀ r ∈ records, r.Fits)
      (counted : records.length = file.pool_count)
      (split : file.rest = records_bytes records ++ left) :
      read_pool file.pool_count file.rest = .done (records.map PoolRecord.payload) := by
    rw [split, ← counted]
    exact read_pool_records fits left
  generalize read_pool file.pool_count file.rest = read at reads early complete
  cases reads with
  | null =>
    refine iff_of_true trivial ⟨code_sized, pool_sized, ?_, ?_⟩
    · intro records left fits few split
      by_contra long
      exact absurd (early fits few split (Nat.not_lt.mp long)) (by simp)
    · exact fun records left fits counted split => absurd (complete fits counted split) (by simp)
  | fault records left few split fits long =>
    refine iff_of_false id fun checks => ?_
    exact absurd (checks.strings_sized records left fits few split) (Nat.not_lt.mpr long)
  | done records left counted split fits =>
    have code_room : (file.code.length : Int) ≤ file.code.length + 16 :=
      Int.le_add_of_nonneg_right (by decide)
    have pool_room : ((records.map PoolRecord.payload).length : Int) ≤ file.pool_count + 8 := by
      rw [List.length_map, counted]
      exact Int.le_add_of_nonneg_right (by decide)
    refine Iff.trans (restored_safely_iff code_room pool_room) ⟨fun checks => ?_, fun checks =>
      checks.code_checks records left fits counted split⟩
    refine ⟨code_sized, pool_sized, ?_, ?_⟩
    · intro others rest fits few split
      by_contra long
      exact absurd (early fits few split (Nat.not_lt.mp long)) (by simp)
    · intro others rest fits counted split
      have same := complete fits counted split
      injection same with same
      rw [← same]
      exact checks

/-- `bc_deserialize` is safe on exactly the inputs that are no accepted file or
one that checks. -/
theorem bc_deserialize_safe_iff (data : List UInt8) :
    (bc_deserialize data).Safely ↔ ∀ file : ArchiveFile, data = file.bytes → FileChecks file := by
  constructor
  · intro safe file same
    rw [same, deserialize_file, load_safely_iff] at safe
    exact safe
  · intro checks
    rcases refused_or_file data with refused | ⟨file, same⟩
    · rw [refused]
      exact True.intro
    · rw [same, deserialize_file, load_safely_iff]
      exact checks file same

/-- A header that asks for `2 ^ 32 - 8` constants: the capacity is zero. -/
theorem pool_count_wraps : ¬ (bc_deserialize (archive_header 0 0 (2 ^ 32 - 8))).Safely := by
  exact id

end LRJS
