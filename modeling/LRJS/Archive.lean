import Mathlib.Data.List.TakeWhile
import LRJS.Library.LittleEndian

/-!
# Archived programs

`bc_serialize` and `bc_deserialize` on bytes.  The memory that the reader
allocates is a capacity: reading stops at the first capacity that is negative
or too small, and at the first access outside a buffer.
-/

namespace LRJS

open List Option LittleEndian

/-- The payload of a `BCConst`: a double by its bits, a string without the final NUL.  A kind
outside `BCPoolKind` has none. -/
inductive PoolConst where
  | int32 (value : BitVec 32)
  | float64 (bits : BitVec 64)
  | string (chars : List UInt8)
  | node (ref : Nat)
  | unknown (kind : UInt8)
deriving DecidableEq

/-- `BCConst`. -/
structure PoolEntry where
  str_hash : BitVec 32
  payload : PoolConst
deriving DecidableEq

/-- `BCProgram`, without its caches and its reference count. -/
structure BCProgram where
  code : List UInt8
  code_cap : Int
  pool : List PoolEntry
  pool_cap : Int
  max_stack : Int
  node_refs : Nat
  compiled : Bool
  local_count : Nat
  nparams : Nat
  is_pure : Bool
  uses_this : Bool
  uses_super : Bool
  uses_name_ops : Bool
  scans_arguments : Bool
  can_inline : Bool
  touches_eval_node : Bool
deriving DecidableEq

def bc_new_program : BCProgram where
  code := []
  code_cap := 0
  pool := []
  pool_cap := 0
  max_stack := 0
  node_refs := 0
  compiled := false
  local_count := 0
  nparams := 0
  is_pure := false
  uses_this := false
  uses_super := false
  uses_name_ops := false
  scans_arguments := false
  can_inline := false
  touches_eval_node := false

namespace BCProgram

def consts (p : BCProgram) : List PoolConst :=
  p.pool.map PoolEntry.payload

end BCProgram

def BC_SER_MAGIC : List UInt8 := [76, 82, 66, 67]

def BC_SER_VERSION : Nat := 2

def BC_SER_FLAG_NODE_REFS : Nat := 1

def put_u32 (value : Nat) : List UInt8 :=
  LittleEndian.put 4 value

/-- The part of a string that `strlen` sees. -/
def c_string (chars : List UInt8) : List UInt8 :=
  chars.takeWhile (· ≠ 0)

theorem c_string_storable (s : List UInt8) : ∀ c ∈ c_string s, c ≠ 0 := by
  intro c member
  have kept := mem_takeWhile_imp member
  exact of_decide_eq_true kept

theorem c_string_eq {chars : List UInt8} (plain : ∀ c ∈ chars, c ≠ 0) : c_string chars = chars :=
  List.takeWhile_eq_self_iff.mpr fun c member => decide_eq_true (plain c member)

def PoolConst.bytes : PoolConst → List UInt8
  | .int32 value => 0 :: put_u32 value.toNat
  | .float64 bits => 1 :: LittleEndian.put 8 bits.toNat
  | .string chars => 2 :: put_u32 (c_string chars).length ++ c_string chars ++ [0]
  | .node _ => [3]
  | .unknown kind => [kind]

def archive_header (flags code_len pool_count : Nat) : List UInt8 :=
  BC_SER_MAGIC ++ put_u32 BC_SER_VERSION ++ put_u32 flags ++ put_u32 code_len ++
    put_u32 pool_count

/-- `bc_serialize`; before the first byte is emitted there is no code. -/
def bc_serialize (p : BCProgram) : Option (List UInt8) :=
  if p.code_cap = 0 then none
  else some (archive_header (if p.node_refs = 0 then 0 else BC_SER_FLAG_NODE_REFS) p.code.length
      p.pool.length ++
    (p.code ++ p.consts.flatMap PoolConst.bytes))

inductive ReadFault where
  | overread
  | overwrite
  | capacity
deriving DecidableEq

inductive Loaded (α : Type) where
  | null
  | fault (why : ReadFault)
  | done (result : α)
deriving DecidableEq

namespace Loaded

variable {α β : Type}

def bind : Loaded α → (α → Loaded β) → Loaded β
  | .null, _ => .null
  | .fault why, _ => .fault why
  | .done result, next => next result

instance : Monad Loaded where
  pure := .done
  bind := bind

@[simp]
theorem done_bind (result : α) (next : α → Loaded β) :
    (Loaded.done result >>= next) = next result :=
  rfl

@[simp]
theorem null_bind (next : α → Loaded β) : ((.null : Loaded α) >>= next) = .null :=
  rfl

@[simp]
theorem fault_bind (why : ReadFault) (next : α → Loaded β) :
    ((.fault why : Loaded α) >>= next) = .fault why :=
  rfl

theorem bind_done_inner {γ : Type} (first : Loaded α) (result : β) (next : α → β → Loaded γ) :
    (first >>= fun a => Loaded.done result >>= next a) = first >>= fun a => next a result :=
  rfl

theorem bind_eq_done_iff {first : Loaded α} {next : α → Loaded β} {result : β} :
    (first >>= next) = .done result ↔ ∃ a, first = .done a ∧ next a = .done result := by
  cases first with
  | null | fault why | done a => simp

end Loaded

/-- `memcpy` of the next `count` bytes of the buffer. -/
def copy (count : Nat) (rest : List UInt8) : Loaded (List UInt8) :=
  if rest.length < count then .fault .overread else .done (rest.take count)

def get_u32 (rest : List UInt8) : Loaded Nat := do
  let bytes ← copy 4 rest
  return LittleEndian.get bytes

/-- `(int32_t)count + slack`, which must be what it says. -/
def capacity (count slack : Nat) : Loaded Int :=
  let cap := Int.bmod (Int.bmod count (2 ^ 32) + slack) (2 ^ 32)
  if cap = count + slack then .done cap else .fault .capacity

def read_const (kind : UInt8) (rest : List UInt8) : Loaded (PoolConst × List UInt8) :=
  if kind = 0 then
    if rest.length < 4 then .null
    else do
      let value ← get_u32 rest
      return (.int32 (BitVec.ofNat 32 value), rest.drop 4)
  else if kind = 1 then
    if rest.length < 8 then .null
    else do
      let bytes ← copy 8 rest
      return (.float64 (BitVec.ofNat 64 (LittleEndian.get bytes)), rest.drop 8)
  else if kind = 2 then
    if rest.length < 4 then .null
    else do
      let sl ← get_u32 rest
      let rest := rest.drop 4
      if rest.length < sl + 1 then .null
      -- `malloc(sl + 1)` computes the size in 32 bits
      else if (sl + 1) % 2 ^ 32 < sl + 1 then .fault .overwrite
      else do
        let chars ← copy sl rest
        return (.string chars, rest.drop (sl + 1))
  else if kind = 3 then .null
  else .done (.unknown kind, rest)

def read_pool : Nat → List UInt8 → Loaded (List PoolConst)
  | 0, _ => .done []
  | _ + 1, [] => .null
  | count + 1, kind :: rest => do
      let (payload, rest) ← read_const kind rest
      let others ← read_pool count rest
      return payload :: others

/-- The program that `bc_deserialize` fills. -/
def restored (code : List UInt8) (code_cap : Int) (pool : List PoolConst) (pool_cap : Int) :
    BCProgram :=
  { bc_new_program with
    code := code
    code_cap := code_cap
    pool := pool.map (⟨0, ·⟩)
    pool_cap := pool_cap
    compiled := true
    max_stack := 64 }

def bc_deserialize (data : List UInt8) : Loaded BCProgram :=
  if data.length < 20 then .null
  else do
    let magic ← copy 4 data
    if magic ≠ BC_SER_MAGIC then .null
    else do
      let version ← get_u32 (data.drop 4)
      if version ≠ BC_SER_VERSION then .null
      else do
        let flags ← get_u32 (data.drop 8)
        if flags % 2 = BC_SER_FLAG_NODE_REFS then .null
        else do
          let code_len ← get_u32 (data.drop 12)
          let pool_count ← get_u32 (data.drop 16)
          if 20 + code_len > data.length then .null
          else do
            let code_cap ← capacity code_len 16
            let code ← copy code_len (data.drop 20)
            let pool_cap ← capacity pool_count 8
            let pool ← read_pool pool_count (data.drop (20 + code_len))
            return restored code code_cap pool pool_cap

inductive PoolRecord where
  | int32 (value : BitVec 32)
  | float64 (bits : BitVec 64)
  | string (chars : List UInt8) (last : UInt8) (small : chars.length < 2 ^ 32)
  | unknown (kind : UInt8) (high : 3 < kind)

namespace PoolRecord

def kind : PoolRecord → UInt8
  | .int32 _ => 0
  | .float64 _ => 1
  | .string _ _ _ => 2
  | .unknown kind _ => kind

def body : PoolRecord → List UInt8
  | .int32 value => put_u32 value.toNat
  | .float64 bits => LittleEndian.put 8 bits.toNat
  | .string chars last _ => put_u32 chars.length ++ chars ++ [last]
  | .unknown _ _ => []

def bytes (r : PoolRecord) : List UInt8 :=
  r.kind :: r.body

def payload : PoolRecord → PoolConst
  | .int32 value => .int32 value
  | .float64 bits => .float64 bits
  | .string chars _ _ => .string chars
  | .unknown kind _ => .unknown kind

def Fits : PoolRecord → Prop
  | .string chars _ _ => chars.length + 1 < 2 ^ 32
  | _ => True

end PoolRecord

variable {count : Nat}

theorem copy_append {bytes rest : List UInt8} (same : bytes.length = count) :
    copy count (bytes ++ rest) = .done bytes := by
  subst same
  rw [copy, if_neg (by simp), take_left]

theorem copy_eq_done {rest : List UInt8} (enough : count ≤ rest.length) :
    copy count rest = .done (rest.take count) :=
  if_neg (Nat.not_lt.mpr enough)

theorem get_u32_append (value : Nat) (rest : List UInt8) :
    get_u32 (put_u32 value ++ rest) = .done (value % 2 ^ 32) := by
  rw [get_u32, put_u32, copy_append (length_put 4 value), Loaded.done_bind,
    get_put]
  rfl

theorem get_u32_eq_done (rest : List UInt8) (enough : 4 ≤ rest.length) :
    ∃ value < 2 ^ 32, get_u32 rest = .done value ∧ rest = put_u32 value ++ rest.drop 4 := by
  have four : (rest.take 4).length = 4 := length_take_of_le enough
  refine ⟨get (rest.take 4), ?_, ?_, ?_⟩
  · have bound := get_lt (rest.take 4)
    rw [four] at bound
    exact bound
  · rw [get_u32, copy_eq_done enough]
    rfl
  · have back := put_get (rest.take 4)
    rw [four] at back
    rw [put_u32, back, take_append_drop]

theorem capacity_eq (slack : Nat) (small : count < 2 ^ 32) (few : slack < 2 ^ 31) :
    capacity count slack =
      if count + slack < 2 ^ 31 then .done (count + slack) else .fault .capacity := by
  unfold capacity
  have wraps : Int.bmod (Int.bmod count (2 ^ 32) + slack) (2 ^ 32) = count + slack ↔
      count + slack < 2 ^ 31 := by
    unfold Int.bmod
    dsimp only
    split <;> split <;> omega
  by_cases fits : count + slack < 2 ^ 31
  · rw [if_pos fits, if_pos (wraps.mpr fits), wraps.mpr fits]
  · rw [if_neg fits, if_neg (wraps.not.mpr fits)]

namespace PoolRecord

/-- A constant that fits is read back from its bytes. -/
theorem read_const_body (r : PoolRecord) (fits : r.Fits) (rest : List UInt8) :
    read_const r.kind (r.body ++ rest) = .done (r.payload, rest) := by
  cases r with
  | int32 value =>
    have enough : ¬ (put_u32 value.toNat ++ rest).length < 4 := by
      simp [put_u32]
    have back : BitVec.ofNat 32 (value.toNat % 2 ^ 32) = value := by
      rw [Nat.mod_eq_of_lt value.isLt, BitVec.ofNat_toNat, BitVec.setWidth_eq]
    rw [kind, body, read_const, if_pos rfl, if_neg enough, get_u32_append, Loaded.done_bind, back]
    rfl
  | float64 bits =>
    have eight := length_put 8 bits.toNat
    have enough : ¬ (put 8 bits.toNat ++ rest).length < 8 := by
      simp
    have back : BitVec.ofNat 64 (get (put 8 bits.toNat)) = bits := by
      rw [get_put_of_lt bits.isLt, BitVec.ofNat_toNat, BitVec.setWidth_eq]
    rw [kind, body, read_const, if_neg (by decide), if_pos rfl, if_neg enough,
      copy_append eight, Loaded.done_bind, back, drop_left' eight]
    rfl
  | string chars last small =>
    have enough : ¬ (put_u32 chars.length ++ chars ++ [last] ++ rest).length < 4 := by
      simp [put_u32]
    have four : (put_u32 chars.length).length = 4 := length_put 4 _
    have after : (put_u32 chars.length ++ (chars ++ ([last] ++ rest))).drop 4 =
        chars ++ ([last] ++ rest) := drop_left' four
    have long : ¬ (chars ++ ([last] ++ rest)).length < chars.length + 1 := by
      simp
    have sized : ¬ (chars.length + 1) % 2 ^ 32 < chars.length + 1 := by
      rw [Nat.mod_eq_of_lt fits]
      exact lt_irrefl _
    rw [kind, body, read_const, if_neg (by decide), if_neg (by decide), if_pos rfl,
      if_neg enough, append_assoc, append_assoc, get_u32_append, Loaded.done_bind,
      Nat.mod_eq_of_lt small, after, if_neg long, if_neg sized, copy_append rfl,
      Loaded.done_bind]
    have behind : (chars ++ ([last] ++ rest)).drop (chars.length + 1) = rest := by
      rw [← append_assoc]
      exact drop_left' (by simp)
    rw [behind]
    rfl
  | unknown kind high =>
    have other : kind ≠ 0 ∧ kind ≠ 1 ∧ kind ≠ 2 ∧ kind ≠ 3 := by
      refine ⟨?_, ?_, ?_, ?_⟩ <;> rintro rfl <;> exact absurd high (by decide)
    rw [PoolRecord.kind, body, read_const, if_neg other.1, if_neg other.2.1, if_neg other.2.2.1,
      if_neg other.2.2.2]
    rfl

end PoolRecord

inductive ReadsConst (kind : UInt8) (rest : List UInt8) : Loaded (PoolConst × List UInt8) → Prop
  | null : ReadsConst kind rest .null
  | done (r : PoolRecord) (left : List UInt8) (same : r.kind = kind)
      (split : rest = r.body ++ left) (fits : r.Fits) :
      ReadsConst kind rest (.done (r.payload, left))
  | fault (left : List UInt8) (string : kind = 2)
      (split : rest = put_u32 (2 ^ 32 - 1) ++ left) (long : 2 ^ 32 ≤ left.length) :
      ReadsConst kind rest (.fault .overwrite)

/-- Reading a constant from any bytes ends in a constant, in the end of the input or in a fault. -/
theorem readsConst (kind : UInt8) (rest : List UInt8) :
    ReadsConst kind rest (read_const kind rest) := by
  unfold read_const
  by_cases int32 : kind = 0
  · rw [if_pos int32]
    by_cases short : rest.length < 4
    · rw [if_pos short]
      exact .null
    · obtain ⟨value, small, read, split⟩ := get_u32_eq_done rest (Nat.not_lt.mp short)
      rw [if_neg short, read, Loaded.done_bind]
      refine .done (.int32 (BitVec.ofNat 32 value)) _ int32.symm ?_ trivial
      rw [PoolRecord.body, BitVec.toNat_ofNat, Nat.mod_eq_of_lt small]
      exact split
  rw [if_neg int32]
  by_cases float64 : kind = 1
  · rw [if_pos float64]
    by_cases short : rest.length < 8
    · rw [if_pos short]
      exact .null
    · have eight : (rest.take 8).length = 8 := length_take_of_le (Nat.not_lt.mp short)
      have back := LittleEndian.put_get (rest.take 8)
      have bound : LittleEndian.get (rest.take 8) < 2 ^ 64 := by
        have fits := LittleEndian.get_lt (rest.take 8)
        rw [eight] at fits
        exact fits
      rw [eight] at back
      rw [if_neg short, copy_eq_done (Nat.not_lt.mp short), Loaded.done_bind]
      refine .done (.float64 (BitVec.ofNat 64 (LittleEndian.get (rest.take 8)))) _ float64.symm
        ?_ trivial
      rw [PoolRecord.body, BitVec.toNat_ofNat, Nat.mod_eq_of_lt bound, back,
        take_append_drop]
  rw [if_neg float64]
  by_cases string : kind = 2
  · rw [if_pos string]
    by_cases short : rest.length < 4
    · rw [if_pos short]
      exact .null
    · obtain ⟨sl, small, read, split⟩ := get_u32_eq_done rest (Nat.not_lt.mp short)
      rw [if_neg short, read, Loaded.done_bind]
      by_cases ends : (rest.drop 4).length < sl + 1
      · rw [if_pos ends]
        exact .null
      rw [if_neg ends]
      by_cases wraps : (sl + 1) % 2 ^ 32 < sl + 1
      · rw [if_pos wraps]
        have full : sl = 2 ^ 32 - 1 := by omega
        refine .fault (rest.drop 4) string (full ▸ split) ?_
        omega
      · have taken : ((rest.drop 4).take sl).length = sl :=
          length_take_of_le (by omega)
        rw [if_neg wraps, copy_eq_done (by omega), Loaded.done_bind]
        refine .done (.string ((rest.drop 4).take sl) (rest.drop 4)[sl]
          (by rw [taken]; exact small)) _ string.symm ?_ ?_
        · rw [PoolRecord.body, taken, append_assoc, append_assoc, singleton_append,
            getElem_cons_drop, take_append_drop]
          exact split
        · rw [PoolRecord.Fits, taken]
          omega
  rw [if_neg string]
  by_cases node : kind = 3
  · rw [if_pos node]
    exact .null
  · rw [if_neg node]
    have high : 3 < kind := by
      by_contra low
      have bound : kind.toNat ≤ 3 := by simpa [UInt8.lt_iff_toNat_lt] using low
      have cases : kind.toNat = 0 ∨ kind.toNat = 1 ∨ kind.toNat = 2 ∨ kind.toNat = 3 := by omega
      rcases cases with is | is | is | is
      · exact int32 (UInt8.toNat_inj.mp is)
      · exact float64 (UInt8.toNat_inj.mp is)
      · exact string (UInt8.toNat_inj.mp is)
      · exact node (UInt8.toNat_inj.mp is)
    exact .done (.unknown kind high) rest rfl rfl trivial

def records_bytes (records : List PoolRecord) : List UInt8 :=
  records.flatMap PoolRecord.bytes

/-- The start of a string record with a length of `2 ^ 32 - 1`. -/
def longest_string : List UInt8 :=
  2 :: put_u32 (2 ^ 32 - 1)

theorem read_pool_cons {r : PoolRecord} (fits : r.Fits) (count : Nat) (rest : List UInt8) :
    read_pool (count + 1) (r.bytes ++ rest) = (do
      let others ← read_pool count rest
      return r.payload :: others) := by
  change (read_const r.kind (r.body ++ rest) >>= _) = _
  rw [r.read_const_body fits, Loaded.done_bind]

theorem read_pool_records {records : List PoolRecord} (fits : ∀ r ∈ records, r.Fits)
    (left : List UInt8) :
    read_pool records.length (records_bytes records ++ left) =
      .done (records.map PoolRecord.payload) := by
  induction records with
  | nil => rfl
  | cons r records ih =>
    have others := ih fun other member => fits other (.tail r member)
    rw [records_bytes, flatMap_cons, append_assoc, length_cons,
      read_pool_cons (fits r (.head records))]
    rw [records_bytes] at others
    rw [others]
    rfl

theorem read_pool_longest {records : List PoolRecord} (fits : ∀ r ∈ records, r.Fits)
    (early : records.length < count) {left : List UInt8} (long : 2 ^ 32 ≤ left.length) :
    read_pool count (records_bytes records ++ (longest_string ++ left)) = .fault .overwrite := by
  induction records generalizing count with
  | nil =>
    obtain ⟨count, rfl⟩ := Nat.exists_eq_succ_of_ne_zero (Nat.ne_of_gt early)
    have four : (put_u32 (2 ^ 32 - 1)).length = 4 := length_put 4 _
    have enough : ¬ (put_u32 (2 ^ 32 - 1) ++ left).length < 4 := by
      rw [length_append, four]
      omega
    have read : read_const 2 (put_u32 (2 ^ 32 - 1) ++ left) = .fault .overwrite := by
      rw [read_const, if_neg (by decide), if_neg (by decide), if_pos rfl, if_neg enough,
        get_u32_append, Loaded.done_bind]
      rw [drop_left' four, if_neg (by omega), if_pos (by decide)]
    change (read_const 2 (put_u32 (2 ^ 32 - 1) ++ left) >>= _) = _
    rw [read, Loaded.fault_bind]
  | cons r records ih =>
    obtain ⟨count, rfl⟩ := Nat.exists_eq_succ_of_ne_zero (Nat.ne_of_gt
      (Nat.lt_of_le_of_lt (Nat.zero_le _) early))
    have others := ih (fun other member => fits other (.tail r member))
      (Nat.lt_of_succ_lt_succ early)
    rw [records_bytes, flatMap_cons, append_assoc,
      read_pool_cons (fits r (.head records))]
    rw [records_bytes] at others
    rw [others, Loaded.fault_bind]

inductive ReadsPool (count : Nat) (rest : List UInt8) : Loaded (List PoolConst) → Prop
  | null : ReadsPool count rest .null
  | done (records : List PoolRecord) (left : List UInt8) (counted : records.length = count)
      (split : rest = records_bytes records ++ left) (fits : ∀ r ∈ records, r.Fits) :
      ReadsPool count rest (.done (records.map PoolRecord.payload))
  | fault (records : List PoolRecord) (left : List UInt8) (early : records.length < count)
      (split : rest = records_bytes records ++ (longest_string ++ left))
      (fits : ∀ r ∈ records, r.Fits) (long : 2 ^ 32 ≤ left.length) :
      ReadsPool count rest (.fault .overwrite)

/-- What reading a pool from any bytes means for these bytes. -/
theorem readsPool (count : Nat) : ∀ rest : List UInt8,
    ReadsPool count rest (read_pool count rest) := by
  induction count with
  | zero =>
    exact fun rest => .done [] rest rfl rfl fun _ member => absurd member not_mem_nil
  | succ count ih =>
    intro rest
    cases rest with
    | nil => exact .null
    | cons kind rest =>
      change ReadsPool _ _ (read_const kind rest >>= _)
      have first := readsConst kind rest
      generalize read_const kind rest = read at first
      cases first with
      | null => exact .null
      | fault left string split long =>
        refine .fault [] left (Nat.succ_pos count) ?_
          (fun _ member => absurd member not_mem_nil) long
        rw [string, split]
        rfl
      | done r left same split fits =>
        rw [Loaded.done_bind]
        dsimp only
        have later := ih left
        generalize read_pool count left = others at later
        have whole : kind :: rest = r.bytes ++ left := by
          rw [PoolRecord.bytes, same, split]
          rfl
        have all {records : List PoolRecord} (others : ∀ r ∈ records, r.Fits) :
            ∀ other ∈ r :: records, other.Fits :=
          List.forall_mem_cons.mpr ⟨fits, others⟩
        cases later with
        | null => exact .null
        | done records left counted split fits =>
          refine .done (r :: records) left (congrArg (· + 1) counted) ?_ (all fits)
          rw [whole, split, records_bytes, records_bytes, flatMap_cons,
            append_assoc]
        | fault records left early split fits long =>
          refine .fault (r :: records) left (Nat.succ_lt_succ early) ?_ (all fits) long
          rw [whole, split, records_bytes, records_bytes, flatMap_cons,
            append_assoc]

structure ArchiveFile where
  flags : Nat
  code : List UInt8
  pool_count : Nat
  rest : List UInt8
  flags_small : flags < 2 ^ 32
  restorable : flags % 2 = 0
  code_small : code.length < 2 ^ 32
  pool_small : pool_count < 2 ^ 32

def ArchiveFile.bytes (file : ArchiveFile) : List UInt8 :=
  archive_header file.flags file.code.length file.pool_count ++ (file.code ++ file.rest)

/-- What `bc_deserialize` does after it has checked the header. -/
def ArchiveFile.load (file : ArchiveFile) : Loaded BCProgram := do
  let code_cap ← capacity file.code.length 16
  let pool_cap ← capacity file.pool_count 8
  let pool ← read_pool file.pool_count file.rest
  return restored file.code code_cap pool pool_cap

theorem archive_drops (flags code_len pool_count : Nat) (rest : List UInt8) :
    let data := archive_header flags code_len pool_count ++ rest
    data.drop 4 = put_u32 BC_SER_VERSION ++ data.drop 8 ∧
      data.drop 8 = put_u32 flags ++ data.drop 12 ∧
      data.drop 12 = put_u32 code_len ++ data.drop 16 ∧
      data.drop 16 = put_u32 pool_count ++ data.drop 20 ∧
      data.drop 20 = rest ∧ data.length = 20 + rest.length := by
  refine ⟨rfl, rfl, rfl, rfl, rfl, ?_⟩
  rw [length_append]
  rfl

theorem deserialize_file (file : ArchiveFile) : bc_deserialize file.bytes = file.load := by
  obtain ⟨version, flags, code_len, pool_count, rest, sized⟩ :=
    archive_drops file.flags file.code.length file.pool_count (file.code ++ file.rest)
  have magic : copy 4 file.bytes = .done BC_SER_MAGIC := rfl
  have word (at_ value : Nat) (small : value < 2 ^ 32)
      (stands : file.bytes.drop at_ = put_u32 value ++ file.bytes.drop (at_ + 4)) :
      get_u32 (file.bytes.drop at_) = .done value := by
    rw [stands, get_u32_append, Nat.mod_eq_of_lt small]
  have even : ¬ file.flags % 2 = BC_SER_FLAG_NODE_REFS := by
    rw [file.restorable]
    decide
  have whole : file.bytes.length = 20 + (file.code ++ file.rest).length := sized
  have inside : ¬ 20 + file.code.length > file.bytes.length := by
    rw [whole, length_append]
    omega
  have code : copy file.code.length (file.bytes.drop 20) = .done file.code := by
    rw [ArchiveFile.bytes, rest, copy_append rfl]
  have behind : file.bytes.drop (20 + file.code.length) = file.rest := by
    rw [← drop_drop, ArchiveFile.bytes, rest, drop_left]
  rw [bc_deserialize, if_neg (by rw [whole]; omega), magic, Loaded.done_bind, if_neg (by simp),
    word 4 _ (by decide) version, Loaded.done_bind, if_neg (by simp),
    word 8 _ file.flags_small flags, Loaded.done_bind, if_neg even,
    word 12 _ file.code_small code_len, Loaded.done_bind,
    word 16 _ file.pool_small pool_count, Loaded.done_bind, if_neg inside]
  rw [code, behind, Loaded.bind_done_inner, ArchiveFile.load]

/-- Bytes that the loader does not refuse are the bytes of an archive file. -/
theorem refused_or_file (data : List UInt8) :
    bc_deserialize data = .null ∨ ∃ file : ArchiveFile, data = file.bytes := by
  unfold bc_deserialize
  by_cases short : data.length < 20
  · exact .inl (if_pos short)
  rw [if_neg short, copy_eq_done (by omega), Loaded.done_bind]
  by_cases foreign : data.take 4 ≠ BC_SER_MAGIC
  · exact .inl (if_pos foreign)
  obtain ⟨version, _, read, version_split⟩ :=
    get_u32_eq_done (data.drop 4) (by rw [length_drop]; omega)
  rw [if_neg foreign, read, Loaded.done_bind]
  by_cases old : version ≠ BC_SER_VERSION
  · exact .inl (if_pos old)
  obtain ⟨flags, flags_small, read, flags_split⟩ :=
    get_u32_eq_done (data.drop 8) (by rw [length_drop]; omega)
  rw [if_neg old, read, Loaded.done_bind]
  by_cases nodes : flags % 2 = BC_SER_FLAG_NODE_REFS
  · exact .inl (if_pos nodes)
  obtain ⟨code_len, code_small, read, code_split⟩ :=
    get_u32_eq_done (data.drop 12) (by rw [length_drop]; omega)
  rw [if_neg nodes, read, Loaded.done_bind]
  obtain ⟨pool_count, pool_small, read, pool_split⟩ :=
    get_u32_eq_done (data.drop 16) (by rw [length_drop]; omega)
  rw [read, Loaded.done_bind]
  by_cases past : 20 + code_len > data.length
  · exact .inl (if_pos past)
  have taken : ((data.drop 20).take code_len).length = code_len :=
    length_take_of_le (by rw [length_drop]; omega)
  have even : flags % 2 = 0 := by
    have odd : flags % 2 ≠ 1 := nodes
    omega
  refine .inr ⟨⟨flags, (data.drop 20).take code_len, pool_count, (data.drop 20).drop code_len,
    flags_small, even, by rw [taken]; exact code_small, pool_small⟩, ?_⟩
  rw [drop_drop] at version_split flags_split code_split pool_split
  have whole : data = archive_header flags code_len pool_count ++ data.drop 20 := by
    simp only [archive_header, append_assoc]
    rw [← pool_split, ← code_split, ← flags_split, ← not_not.mp old, ← version_split,
      ← not_not.mp foreign, take_append_drop]
  rw [ArchiveFile.bytes]
  dsimp only
  rw [taken, take_append_drop]
  exact whole

end LRJS
