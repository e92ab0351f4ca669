import LRJS.ArchiveSafety

/-!
# Storing and restoring programs

The programs that the emitter makes, the archive of one, and what comes back.
Two programs are alike when every engine that supplies values to the dispatch
loop runs them alike; allocations of the machine succeed.
-/

namespace LRJS

open List Option Loaded

namespace BCProgram

def str_hash (chars : List UInt8) : BitVec 32 :=
  chars.foldl (fun h c => (h <<< 5) - h + BitVec.ofNat 32 c.toNat) 0

def pool_reserve (p : BCProgram) : BCProgram :=
  if p.pool.length < p.pool_cap then p
  else { p with pool_cap := if p.pool_cap ≠ 0 then p.pool_cap * 2 else 32 }

def pool_append (p : BCProgram) (entry : PoolEntry) : BCProgram :=
  { p.pool_reserve with pool := p.pool ++ [entry] }

/-- A double constant that is `==` to the number. -/
def same_f64 (bits : BitVec 64) : PoolConst → Bool
  | .float64 other => Double.ceq ⟨other⟩ ⟨bits⟩
  | _ => false

def pool_add_f64 (p : BCProgram) (bits : BitVec 64) : BCProgram :=
  if p.consts.any (same_f64 bits) then p.pool_reserve
  else p.pool_append ⟨0, .float64 bits⟩

/-- `pool_add_str` of the bytes at an address. -/
def pool_add_str (p : BCProgram) (s : List UInt8) : BCProgram :=
  if p.consts.contains (.string (c_string s)) then p.pool_reserve
  else p.pool_append ⟨str_hash (c_string s), .string (c_string s)⟩

def pool_add_node (p : BCProgram) (node : Nat) : BCProgram :=
  { p.pool_append ⟨0, .node node⟩ with node_refs := p.node_refs + 1 }

/-- The fields that `bc_compile_ex` and `bc_compile_func` fill in besides code
and pool. -/
structure Metadata where
  max_stack : Int
  compiled : Bool
  local_count : Nat
  nparams : Nat
  is_pure : Bool
  uses_this : Bool
  uses_super : Bool
  uses_name_ops : Bool
  scans_arguments : Bool
  can_inline : Bool
  touches_eval_node : Bool

def describe (p : BCProgram) (m : Metadata) : BCProgram :=
  { p with
    max_stack := m.max_stack
    compiled := m.compiled
    local_count := m.local_count
    nparams := m.nparams
    is_pure := m.is_pure
    uses_this := m.uses_this
    uses_super := m.uses_super
    uses_name_ops := m.uses_name_ops
    scans_arguments := m.scans_arguments
    can_inline := m.can_inline
    touches_eval_node := m.touches_eval_node }

/-- A program that the emitter has made so far: bytes are appended where there is room, patched and
fused in place, constants are added, and the metadata is filled in. -/
inductive Emitted : BCProgram → Prop
  | new : Emitted bc_new_program
  | emit {p : BCProgram} (byte : UInt8) (cap : Int) (made : Emitted p)
      (room : p.code.length + 1 ≤ cap) (int : cap < 2 ^ 31) :
      Emitted { p with code := p.code ++ [byte], code_cap := cap }
  | patch {p : BCProgram} (pos : Nat) (byte : UInt8) (made : Emitted p) :
      Emitted { p with code := p.code.set pos byte }
  | float64 {p : BCProgram} (bits : BitVec 64) (made : Emitted p)
      (few : (p.pool_add_f64 bits).pool.length ≤ 2 ^ 16) : Emitted (p.pool_add_f64 bits)
  | string {p : BCProgram} (s : List UInt8) (made : Emitted p)
      (few : (p.pool_add_str s).pool.length ≤ 2 ^ 16) : Emitted (p.pool_add_str s)
  | node {p : BCProgram} (node : Nat) (made : Emitted p)
      (few : (p.pool_add_node node).pool.length ≤ 2 ^ 16) : Emitted (p.pool_add_node node)
  | described {p : BCProgram} (m : Metadata) (made : Emitted p) : Emitted (p.describe m)

/-- What a successful `bc_compile_ex` leaves. -/
structure Produced (p : BCProgram) : Prop where
  emitted : p.Emitted
  compiled : p.compiled = true
  stops : p.code ≠ []

end BCProgram

def PoolConst.Storable : PoolConst → Prop
  | .int32 _ | .float64 _ => True
  | .string chars => ∀ c ∈ chars, c ≠ 0
  | .node _ | .unknown _ => False

def PoolConst.Fits : PoolConst → Prop
  | .string chars => chars.length + 1 < 2 ^ 32
  | _ => True

namespace BCProgram

variable {p : BCProgram}

/-- A program without nodes holds only constants that can be stored, and its
sizes are 32-bit numbers. -/
structure Regular (p : BCProgram) : Prop where
  storable : p.node_refs = 0 → ∀ c ∈ p.consts, c.Storable
  sized : p.code.length < 2 ^ 31
  few : p.pool.length ≤ 2 ^ 16
  capable : p.code ≠ [] → p.code_cap ≠ 0

@[simp]
theorem pool_reserve_consts : p.pool_reserve.consts = p.consts := by
  unfold pool_reserve
  split <;> rfl

@[simp]
theorem pool_reserve_node_refs : p.pool_reserve.node_refs = p.node_refs := by
  unfold pool_reserve
  split <;> rfl

@[simp]
theorem pool_reserve_code : p.pool_reserve.code = p.code := by
  unfold pool_reserve
  split <;> rfl

@[simp]
theorem pool_reserve_code_cap : p.pool_reserve.code_cap = p.code_cap := by
  unfold pool_reserve
  split <;> rfl

theorem consts_append (entry : PoolEntry) :
    (p.pool_append entry).consts = p.consts ++ [entry.payload] :=
  map_append

theorem Regular.pool {q : BCProgram} (regular : p.Regular) (code : q.code = p.code)
    (cap : q.code_cap = p.code_cap) (few : q.pool.length ≤ 2 ^ 16)
    (storable : q.node_refs = 0 → ∀ c ∈ q.consts, c.Storable) : q.Regular := by
  refine ⟨storable, ?_, few, ?_⟩
  · rw [code]
    exact regular.sized
  · rw [code, cap]
    exact regular.capable

theorem Regular.reserve (regular : p.Regular) (few : p.pool_reserve.pool.length ≤ 2 ^ 16) :
    p.pool_reserve.Regular := by
  refine regular.pool pool_reserve_code pool_reserve_code_cap few fun none => ?_
  rw [pool_reserve_consts]
  rw [pool_reserve_node_refs] at none
  exact regular.storable none

theorem Regular.append (regular : p.Regular) (entry : PoolEntry)
    (storable : entry.payload.Storable) (few : (p.pool_append entry).pool.length ≤ 2 ^ 16) :
    (p.pool_append entry).Regular := by
  refine regular.pool pool_reserve_code pool_reserve_code_cap few fun none => ?_
  have before : p.node_refs = 0 := by
    rw [← pool_reserve_node_refs]
    exact none
  rw [consts_append]
  intro c member
  rcases mem_append.mp member with old | new
  · exact regular.storable before c old
  · rw [mem_singleton.mp new]
    exact storable

/-- What the emission functions make is regular. -/
theorem Emitted.regular (made : p.Emitted) : p.Regular := by
  induction made with
  | new => exact ⟨fun _ _ member => absurd member not_mem_nil, by decide, by decide, nofun⟩
  | @emit p byte cap made room int ih =>
    refine ⟨ih.storable, ?_, ih.few, fun _ => ?_⟩
    · rw [length_append, length_singleton]
      omega
    · dsimp only
      omega
  | @patch p pos byte made ih =>
    refine ⟨ih.storable, ?_, ih.few, fun some => ?_⟩
    · rw [length_set]
      exact ih.sized
    · exact ih.capable fun none => some (by rw [none]; rfl)
  | @float64 p bits made few ih =>
    by_cases known : p.consts.any (same_f64 bits)
    · rw [pool_add_f64, if_pos known] at few ⊢
      exact ih.reserve few
    · rw [pool_add_f64, if_neg known] at few ⊢
      exact ih.append ⟨_, .float64 _⟩ True.intro few
  | @string p s made few ih =>
    by_cases known : p.consts.contains (.string (c_string s))
    · rw [pool_add_str, if_pos known] at few ⊢
      exact ih.reserve few
    · rw [pool_add_str, if_neg known] at few ⊢
      exact ih.append ⟨_, .string _⟩ (c_string_storable s) few
  | @node p node made few ih =>
    exact ih.pool pool_reserve_code pool_reserve_code_cap few nofun
  | described m made ih =>
    exact ⟨ih.storable, ih.sized, ih.few,
      ih.capable⟩

end BCProgram

theorem PoolConst.has_record {c : PoolConst} (storable : c.Storable) (fits : c.Fits) :
    ∃ r : PoolRecord, r.bytes = c.bytes ∧ r.payload = c ∧ r.Fits := by
  cases c with
  | int32 value => exact ⟨.int32 value, rfl, rfl, trivial⟩
  | float64 bits => exact ⟨.float64 bits, rfl, rfl, trivial⟩
  | string chars =>
    refine ⟨.string chars 0 (Nat.lt_of_succ_lt fits), ?_, rfl, fits⟩
    rw [PoolConst.bytes, c_string_eq storable]
    rfl
  | node ref | unknown kind => exact absurd storable id

theorem read_pool_fits {consts : List PoolConst} (storable : ∀ c ∈ consts, c.Storable)
    (fits : ∀ c ∈ consts, c.Fits) :
    read_pool consts.length (consts.flatMap PoolConst.bytes) = .done consts := by
  induction consts with
  | nil => rfl
  | cons c consts ih =>
    obtain ⟨r, bytes, payload, small⟩ :=
      PoolConst.has_record (storable c (.head _)) (fits c (.head _))
    have others := ih (fun c member => storable c (.tail _ member))
      (fun c member => fits c (.tail _ member))
    rw [flatMap_cons, length_cons, ← bytes, read_pool_cons small, others, payload]
    rfl

/-- A string whose length with its NUL passes 32 bits is not read back. -/
theorem read_const_misfit {chars : List UInt8} (misfit : 2 ^ 32 ≤ chars.length + 1)
    (rest left : List UInt8) :
    read_const 2 (put_u32 chars.length ++ rest) ≠ .done (.string chars, left) := by
  intro read
  rw [read_const, if_neg (by decide), if_neg (by decide), if_pos rfl] at read
  have four : (put_u32 chars.length).length = 4 := LittleEndian.length_put 4 _
  rw [if_neg (by rw [length_append, four]; omega), get_u32_append, done_bind] at read
  rw [drop_left' four] at read
  generalize sized : chars.length % 2 ^ 32 = sl at read
  by_cases short : rest.length < sl + 1
  · rw [if_pos short] at read
    cases read
  rw [if_neg short] at read
  by_cases wraps : (sl + 1) % 2 ^ 32 < sl + 1
  · rw [if_pos wraps] at read
    cases read
  rw [if_neg wraps, copy_eq_done (by omega), done_bind] at read
  injection read with read
  injection read with string
  injection string with string
  have length : chars.length ≤ sl := by
    rw [← string]
    exact length_take_le sl rest
  omega

/-- A pool that is read back had constants that fit. -/
theorem fits_of_read_pool {consts : List PoolConst} (storable : ∀ c ∈ consts, c.Storable)
    (read : read_pool consts.length (consts.flatMap PoolConst.bytes) = .done consts) :
    ∀ c ∈ consts, c.Fits := by
  induction consts with
  | nil => exact fun _ member => absurd member not_mem_nil
  | cons c consts ih =>
    have others (c) (member : c ∈ consts) := storable c (.tail _ member)
    by_cases fits : c.Fits
    · obtain ⟨r, bytes, payload, small⟩ :=
        PoolConst.has_record (storable c (.head _)) fits
      rw [flatMap_cons, length_cons, ← bytes, read_pool_cons small] at read
      obtain ⟨found, later, same⟩ := bind_eq_done_iff.mp read
      injection same with same
      injection same with _ same
      rw [same] at later
      exact forall_mem_cons.mpr ⟨fits, ih others later⟩
    · cases c with
      | string chars =>
        have plain : ∀ c ∈ chars, c ≠ 0 := storable _ (.head _)
        rw [flatMap_cons, length_cons, PoolConst.bytes, c_string_eq plain,
          append_assoc, cons_append, cons_append, append_assoc] at read
        obtain ⟨⟨found, left⟩, first, later⟩ := bind_eq_done_iff.mp read
        obtain ⟨rest, _, same⟩ := bind_eq_done_iff.mp later
        injection same with same
        injection same with same
        rw [same] at first
        exact absurd first (read_const_misfit (Nat.not_lt.mp fits) _ _)
      | int32 value | float64 bits | node ref | unknown kind => exact absurd trivial fits

theorem capacity_done_iff {count slack : Nat} {cap : Int} (small : count < 2 ^ 32)
    (few : slack < 2 ^ 31) :
    capacity count slack = .done cap ↔ count + slack < 2 ^ 31 ∧ cap = count + slack := by
  rw [capacity_eq slack small few]
  by_cases room : count + slack < 2 ^ 31
  · rw [if_pos room]
    exact ⟨fun same => by cases same; exact ⟨room, rfl⟩, fun both => by rw [both.2]⟩
  · rw [if_neg room]
    exact ⟨nofun, fun both => absurd both.1 room⟩

theorem ArchiveFile.load_done_iff (file : ArchiveFile) {q : BCProgram} :
    file.load = .done q ↔ ∃ pool cap, ∃ slots : Int, file.code.length + 16 < 2 ^ 31 ∧
      file.pool_count + 8 < 2 ^ 31 ∧ cap = file.code.length + ((16 : Nat) : Int) ∧
      slots = file.pool_count + ((8 : Nat) : Int) ∧
      read_pool file.pool_count file.rest = .done pool ∧
      q = restored file.code cap pool slots := by
  unfold ArchiveFile.load
  rw [bind_eq_done_iff]
  constructor
  · rintro ⟨cap, code_cap, later⟩
    obtain ⟨slots, pool_cap, later⟩ := bind_eq_done_iff.mp later
    obtain ⟨pool, pooled, same⟩ := bind_eq_done_iff.mp later
    injection same with same
    obtain ⟨room, code_cap⟩ := (capacity_done_iff file.code_small (by decide)).mp code_cap
    obtain ⟨few, pool_cap⟩ := (capacity_done_iff file.pool_small (by decide)).mp pool_cap
    exact ⟨pool, cap, slots, room, few, code_cap, pool_cap, pooled, same.symm⟩
  · rintro ⟨pool, cap, slots, room, few, code_cap, pool_cap, pooled, same⟩
    refine ⟨cap, (capacity_done_iff file.code_small (by decide)).mpr ⟨room, code_cap⟩, ?_⟩
    refine bind_eq_done_iff.mpr
      ⟨slots, (capacity_done_iff file.pool_small (by decide)).mpr ⟨few, pool_cap⟩, ?_⟩
    refine bind_eq_done_iff.mpr ⟨pool, pooled, ?_⟩
    rw [same]
    rfl

/-- A handler aborts, or leaves a stack and goes on at the next instruction or at the target. -/
inductive Handled (World Value : Type) where
  | aborts (world : World)
  | goes (jumps : Bool) (stack : List Value) (world : World)

def Handled.jumps {World Value : Type} : Handled World Value → Bool
  | .aborts _ => false
  | .goes jumps _ _ => jumps

/-- The rest of the engine: handlers see their operands, their constant, the operand stack and the
world.  The depth that a handler leaves is the one of its accesses. -/
structure HandlerSet (World Value : Type) where
  slot_count : World → Nat
  handle : Decoded → Option PoolConst → List Value → World → Handled World Value
  vm_abort : World → World
  depth : ∀ (d : Decoded) (consts : List PoolConst) (stack after : List Value)
    (world next : World) (jumps : Bool) (left : Nat),
    handle d consts[d.values.const]? stack world = .goes jumps after next →
      Micro.flow consts d.values (slot_count world) (d.micro jumps) stack.length =
        some (some left) → after.length = left

structure ValueState (World Value : Type) where
  ip : Int
  stack : List Value
  cap : Nat
  world : World

inductive ValueRun (World Value : Type) where
  | running (state : ValueState World Value)
  | ended (world : World)
  | bad

inductive SeenRun (World Value : Type) where
  | running (ip : Int) (stack : List Value) (world : World)
  | ended (world : World)
  | bad

section Runs

variable {World Value : Type}

def ValueRun.seen : ValueRun World Value → SeenRun World Value
  | .running s => .running s.ip s.stack s.world
  | .ended world => .ended world
  | .bad => .bad

namespace HandlerSet

variable (e : HandlerSet World Value)

def step (p : BCProgram) (s : ValueState World Value) : ValueRun World Value :=
  match decode p.code s.ip with
  | none => .bad
  | some d =>
    let handled := e.handle d p.consts[d.values.const]? s.stack s.world
    match Micro.execAll p.consts d.values (e.slot_count s.world) (d.micro handled.jumps)
        s.stack.length s.cap with
    | .bad => .bad
    | .aborted => .ended (e.vm_abort s.world)
    | .done _ cap =>
      match handled with
      | .aborts world => .ended world
      | .goes jumps stack world =>
        if d.op.ends then .ended world
        else .running ⟨d.goesTo jumps, stack, cap, world⟩

def run (p : BCProgram) : Nat → ValueState World Value → ValueRun World Value
  | 0, s => .running s
  | fuel + 1, s =>
    match e.step p s with
    | .running next => run p fuel next
    | finished => finished

/-- `bc_execute`, stopped after so many instructions; a program without code or
that is not compiled does nothing. -/
def bc_execute (p : BCProgram) (fuel : Nat) (world : World) : ValueRun World Value :=
  if p.code_cap = 0 ∨ p.compiled = false then .ended world
  else e.run p fuel ⟨0, [], p.stack_cap, world⟩

structure Level (s t : ValueState World Value) : Prop where
  ip : s.ip = t.ip
  stack : s.stack = t.stack
  world : s.world = t.world
  inside : s.stack.length ≤ s.cap
  room : 0 < s.cap
  other_inside : t.stack.length ≤ t.cap
  other_room : 0 < t.cap

inductive Abreast : ValueRun World Value → ValueRun World Value → Prop
  | running {s t : ValueState World Value} (level : Level s t) : Abreast (.running s) (.running t)
  | ended (world : World) : Abreast (.ended world) (.ended world)
  | bad : Abreast .bad .bad

theorem Abreast.seen {r r' : ValueRun World Value} (abreast : Abreast r r') : r.seen = r'.seen := by
  cases abreast with
  | running level =>
    rw [ValueRun.seen, ValueRun.seen, level.ip, level.stack, level.world]
  | ended world | bad => rfl

variable {p q : BCProgram}

section

variable (code : p.code = q.code) (consts : p.consts = q.consts) {s t : ValueState World Value}
include code consts

/-- Programs with pools that agree take the same steps. -/
theorem step_abreast (level : Level s t) : Abreast (e.step p s) (e.step q t) := by
  unfold step
  rw [code, consts, level.ip, level.world, level.stack]
  cases decode q.code t.ip with
  | none => exact .bad
  | some d =>
    dsimp only
    generalize handles : e.handle d q.consts[d.values.const]? t.stack t.world = handled
    have inside : t.stack.length ≤ s.cap := by
      rw [← level.stack]
      exact level.inside
    have guarded := d.op.micro_guarded d.values.count handled.jumps
    have one := Micro.execAll_agrees q.consts d.values (e.slot_count t.world) _ guarded
      (Nat.zero_le _) inside level.room
    have other := Micro.execAll_agrees q.consts d.values (e.slot_count t.world) _ guarded
      (Nat.zero_le _) level.other_inside level.other_room
    change Agrees (Micro.execAll _ _ _ (d.micro handled.jumps) _ _) _ at one
    change Agrees (Micro.execAll _ _ _ (d.micro handled.jumps) _ _) _ at other
    generalize goes : Micro.flow q.consts d.values (e.slot_count t.world)
      (d.op.micro d.values.count handled.jumps) t.stack.length = flow at one other
    generalize Micro.execAll q.consts d.values (e.slot_count t.world) (d.micro handled.jumps)
      t.stack.length s.cap = here at one
    generalize Micro.execAll q.consts d.values (e.slot_count t.world) (d.micro handled.jumps)
      t.stack.length t.cap = there at other
    cases one with
    | bad =>
      cases other
      exact .bad
    | aborted =>
      cases other
      exact .ended _
    | @done sp cap inside room =>
      cases other with
      | done other_inside other_room =>
        cases handled with
        | aborts world => exact .ended world
        | goes jumps stack world =>
          dsimp only
          by_cases finished : d.op.ends = true
          · rw [if_pos finished, if_pos finished]
            exact .ended world
          · have depth := e.depth d q.consts t.stack stack t.world world jumps sp handles
              goes
            rw [if_neg finished, if_neg finished]
            rw [← depth] at inside other_inside
            exact .running ⟨rfl, rfl, rfl, inside, room, other_inside, other_room⟩

theorem run_abreast (fuel : Nat) (level : Level s t) :
    Abreast (e.run p fuel s) (e.run q fuel t) := by
  induction fuel generalizing s t with
  | zero => exact .running level
  | succ fuel ih =>
    unfold run
    have abreast := e.step_abreast code consts level
    generalize e.step p s = r at abreast
    generalize e.step q t = r' at abreast
    cases abreast with
    | running level => exact ih level
    | ended world => exact .ended world
    | bad => exact .bad

end

end HandlerSet

end Runs

namespace BCProgram

def Alike (p q : BCProgram) : Prop :=
  ∀ (World Value : Type) (e : HandlerSet World Value) (world : World) (fuel : Nat),
    (e.bc_execute p fuel world).seen = (e.bc_execute q fuel world).seen

/-- The archive of the program is read, and what is read has the same code and
constants and runs alike. -/
def RoundTrips (p : BCProgram) : Prop :=
  ∃ data q, bc_serialize p = some data ∧ bc_deserialize data = .done q ∧
    q.code = p.code ∧ q.consts = p.consts ∧ p.Alike q

theorem stack_cap_room (p : BCProgram) : 0 < p.stack_cap :=
  Nat.lt_of_lt_of_le (by decide) ((Nat.le_max_left 256 _).trans (Nat.le_max_left _ _))

variable {p : BCProgram}

theorem alike {q : BCProgram} (code : p.code = q.code) (consts : p.consts = q.consts)
    (runs : ¬ (p.code_cap = 0 ∨ p.compiled = false))
    (other_runs : ¬ (q.code_cap = 0 ∨ q.compiled = false)) : p.Alike q := by
  intro World Value e world fuel
  rw [HandlerSet.bc_execute, HandlerSet.bc_execute, if_neg runs, if_neg other_runs]
  exact HandlerSet.Abreast.seen (e.run_abreast code consts fuel ⟨rfl, rfl, rfl, Nat.zero_le _,
    p.stack_cap_room, Nat.zero_le _, q.stack_cap_room⟩)

def archive (p : BCProgram) (sized : p.code.length < 2 ^ 32) (few : p.pool.length < 2 ^ 32) :
    ArchiveFile where
  flags := 0
  code := p.code
  pool_count := p.pool.length
  rest := p.consts.flatMap PoolConst.bytes
  flags_small := by decide
  restorable := rfl
  code_small := sized
  pool_small := few

theorem restored_runs (code : List UInt8) {code_cap : Int} (pool : List PoolConst)
    (pool_cap : Int) (room : code_cap ≠ 0) :
    ¬ ((restored code code_cap pool pool_cap).code_cap = 0 ∨
      (restored code code_cap pool pool_cap).compiled = false) := by
  rintro (none | raw)
  · exact room none
  · cases raw

section

variable (produced : p.Produced) (no_nodes : p.node_refs = 0)
include produced no_nodes

theorem Produced.written :
    ∃ file : ArchiveFile, bc_serialize p = some file.bytes ∧ file.code = p.code ∧
      file.pool_count = p.consts.length ∧ file.rest = p.consts.flatMap PoolConst.bytes := by
  have regular := produced.emitted.regular
  have sized := regular.sized
  have few := regular.few
  refine ⟨p.archive (by omega) (by omega), ?_, rfl, (length_map _).symm, rfl⟩
  rw [bc_serialize, if_neg (regular.capable produced.stops), if_pos no_nodes]
  rfl

theorem fits_of_round_trips (survives : p.RoundTrips) :
    p.code.length + 16 < 2 ^ 31 ∧ ∀ chars, .string chars ∈ p.consts →
      chars.length + 1 < 2 ^ 32 := by
  obtain ⟨file, written, code, count, rest⟩ := produced.written no_nodes
  obtain ⟨data, q, wrote, read, _, consts, _⟩ := survives
  rw [written] at wrote
  injection wrote with wrote
  rw [← wrote, deserialize_file] at read
  obtain ⟨pool, cap, slots, room, _, _, _, pooled, same⟩ := file.load_done_iff.mp read
  rw [same, consts_restored] at consts
  rw [consts, count, rest] at pooled
  have fits := fits_of_read_pool (produced.emitted.regular.storable no_nodes) pooled
  rw [code] at room
  exact ⟨room, fun chars member => fits _ member⟩

/-- A program whose code and strings fit in 32 bits is read back as it was. -/
theorem round_trips_of_fits (room : p.code.length + 16 < 2 ^ 31)
    (short : ∀ chars, .string chars ∈ p.consts → chars.length + 1 < 2 ^ 32) : p.RoundTrips := by
  have regular := produced.emitted.regular
  obtain ⟨file, written, code, count, rest⟩ := produced.written no_nodes
  have fits : ∀ c ∈ p.consts, c.Fits := by
    intro c member
    cases c with
    | string chars => exact short chars member
    | int32 value | float64 bits | node ref | unknown kind => trivial
  have pooled := read_pool_fits (regular.storable no_nodes) fits
  rw [← count, ← rest] at pooled
  have few : file.pool_count + 8 < 2 ^ 31 := by
    rw [count, consts, length_map]
    exact Nat.lt_of_le_of_lt (Nat.add_le_add_right regular.few 8) (by decide)
  obtain ⟨cap, positive, code_cap⟩ :
      ∃ cap : Int, cap ≠ 0 ∧ cap = file.code.length + ((16 : Nat) : Int) :=
    ⟨file.code.length + ((16 : Nat) : Int), by omega, rfl⟩
  obtain ⟨slots, pool_cap⟩ : ∃ slots : Int, slots = file.pool_count + ((8 : Nat) : Int) :=
    ⟨_, rfl⟩
  have load := file.load_done_iff.mpr
    ⟨p.consts, cap, slots, by rw [code]; exact room, few, code_cap, pool_cap, pooled, rfl⟩
  rw [← deserialize_file] at load
  refine ⟨file.bytes, _, written, load, code, consts_restored _ _ _ _, ?_⟩
  have same_code : p.code = (restored file.code cap p.consts slots).code := code.symm
  refine alike same_code (consts_restored _ _ _ _).symm ?_ (restored_runs _ _ _ positive)
  rintro (none | raw)
  · exact regular.capable produced.stops none
  · exact absurd (produced.compiled.symm.trans raw) (by decide)

end

/-- A finished program without nodes survives the archive exactly when its code leaves room for the
slack and no string constant has `2 ^ 32 - 1` bytes or more. -/
theorem round_trips_iff {p : BCProgram} (produced : p.Produced) (no_nodes : p.node_refs = 0) :
    p.RoundTrips ↔ p.code.length + 16 < 2 ^ 31 ∧
      ∀ chars, .string chars ∈ p.consts → chars.length + 1 < 2 ^ 32 :=
  ⟨fits_of_round_trips produced no_nodes, fun fits =>
    round_trips_of_fits produced no_nodes fits.1 fits.2⟩

/-- `emit` of one byte into the first buffer. -/
def emit_byte (p : BCProgram) (byte : UInt8) : BCProgram :=
  { p with code := p.code ++ [byte], code_cap := 256 }

/-- What `bc_compile` makes of a script that is one string literal:
`BC_PUSH_STRING`, `BC_SET_RESULT` and `BC_STOP`. -/
def literal_program (chars : List UInt8) : BCProgram :=
  ((((((bc_new_program.pool_add_str chars).emit_byte 9).emit_byte 0).emit_byte 0).emit_byte
    86).emit_byte 0).describe
    { max_stack := 64
      compiled := true
      local_count := 0
      nparams := 0
      is_pure := false
      uses_this := false
      uses_super := false
      uses_name_ops := false
      scans_arguments := false
      can_inline := false
      touches_eval_node := false }

theorem Emitted.emit_byte (made : p.Emitted) (byte : UInt8)
    (room : p.code.length + 1 ≤ 256) : (p.emit_byte byte).Emitted :=
  .emit byte 256 made (by omega) (by decide)

theorem literal_consts (chars : List UInt8) :
    (literal_program chars).consts = [.string (c_string chars)] :=
  rfl

theorem literal_produced (chars : List UInt8) : (literal_program chars).Produced := by
  have pool : (bc_new_program.pool_add_str chars).Emitted :=
    .string chars .new (Nat.le_of_ble_eq_true rfl)
  have opcode := pool.emit_byte 9 (Nat.le_of_ble_eq_true rfl)
  have low := opcode.emit_byte 0 (Nat.le_of_ble_eq_true rfl)
  have high := low.emit_byte 0 (Nat.le_of_ble_eq_true rfl)
  have result := high.emit_byte 86 (Nat.le_of_ble_eq_true rfl)
  have stop := result.emit_byte 0 (Nat.le_of_ble_eq_true rfl)
  exact ⟨.described _ stop, rfl, nofun⟩

/-- The literal `"hi"` survives. -/
theorem round_trips_hi : (literal_program [104, 105]).RoundTrips := by
  refine (round_trips_iff (literal_produced _) rfl).mpr ⟨by decide, fun chars member => ?_⟩
  rw [literal_consts, mem_singleton] at member
  injection member with member
  rw [member]
  decide

/-- A literal of `2 ^ 32 - 1` letters: the reader allocates no byte for it. -/
theorem longest_literal :
    (literal_program (List.replicate (2 ^ 32 - 1) 97)).Produced ∧
      ¬ (literal_program (List.replicate (2 ^ 32 - 1) 97)).RoundTrips := by
  generalize letters : replicate (2 ^ 32 - 1) (97 : UInt8) = chars
  have plain : ∀ c ∈ chars, c ≠ 0 := by
    intro c member
    rw [← letters] at member
    rw [eq_of_mem_replicate member]
    decide
  refine ⟨literal_produced chars, fun survives => ?_⟩
  have short := (fits_of_round_trips (literal_produced chars) rfl survives).2 (c_string chars)
    (mem_singleton_self _)
  rw [c_string_eq plain, ← letters, length_replicate] at short
  exact absurd short (by decide)

end BCProgram

end LRJS
